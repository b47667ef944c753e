/-
The RAM file system stays a tree.

The table knows only names.  `RamfsTree` says that they form a tree: every name is
canonical, no name occurs twice, and what stands before the last slash of a name is
the root or the name of a directory.  A creation is preceded by a check of exactly
that, for the name as it is stored; a removal by a check that no name continues the
removed one behind a slash.
-/
import BrightS.Kernel.Ramfs
import BrightS.Lib.Runs
import BrightS.Proofs.Path

namespace BrightS

open Runs

/-! ### Parents -/

theorem lastSlash_noSlash {base : CStr} (h : '/' ∉ base) :
    ∀ i last, lastSlash base i last = last := by
  induction base with
  | nil => exact fun i last => rfl
  | cons c rest ih =>
      intro i last
      rw [List.mem_cons, not_or] at h
      rw [lastSlash, if_neg (fun hc => h.1 hc.symm), ih h.2]

theorem lastSlash_append {base : CStr} (h : '/' ∉ base) (dir : CStr) :
    ∀ i last, lastSlash (dir ++ '/' :: base) i last = some (i + dir.length) := by
  induction dir with
  | nil =>
      intro i last
      rw [List.nil_append, lastSlash, if_pos rfl, lastSlash_noSlash h]
      rfl
  | cons c rest ih =>
      intro i last
      rw [List.cons_append, lastSlash, ih, List.length_cons]
      congr 1
      omega

theorem not_canonicalName_root : ¬ CanonicalName ['/'] := by
  rintro ⟨rest, heq, hsegs⟩
  obtain rfl : [] = rest := (List.cons.inj heq).2
  exact (hsegs [] (by simp)).1 rfl

/-- The code's parent is what stands before the last slash. -/
theorem pathParent_eq {path dir base : CStr} (hcanon : CanonicalName path)
    (hlen : path.length < ramfsMaxName) (hpath : path = dir ++ '/' :: base) (hbase : '/' ∉ base) :
    pathParent path ramfsMaxName = some (if dir = [] then ['/'] else dir) := by
  have hne : path ≠ ['/'] := fun h => not_canonicalName_root (h ▸ hcanon)
  obtain ⟨rest, hrest, -⟩ := hcanon
  have hone : path.length ≠ 1 := by
    intro h1
    rw [hrest, List.length_cons] at h1
    have : rest = [] := List.length_eq_zero_iff.mp (by omega)
    exact hne (by rw [hrest, this])
  have hhead : path.head? = some '/' := by rw [hrest]; rfl
  unfold pathParent
  rw [if_neg (by rw [not_or, not_not]; exact ⟨hhead, hone⟩), hpath, lastSlash_append hbase,
    Nat.zero_add]
  dsimp only
  have hlt : dir.length < ramfsMaxName := by
    rw [hpath, List.length_append] at hlen
    omega
  by_cases hdir : dir = []
  · rw [if_pos (by rw [hdir]; rfl), if_pos hdir]
  · have hpos : dir.length ≠ 0 := fun h => hdir (List.length_eq_zero_iff.mp h)
    rw [if_neg hpos, if_neg (by omega), if_neg hdir, List.take_left' rfl]

/-! ### The tree -/

structure RamfsTree (fs : Ramfs) : Prop where
  canonical : ∀ i, i < ramfsMaxFiles → (fs i).inUse = true → CanonicalName (fs i).name
  distinct : ∀ i j, i < ramfsMaxFiles → j < ramfsMaxFiles → (fs i).inUse = true →
    (fs j).inUse = true → (fs i).name = (fs j).name → i = j
  parent : ∀ i, i < ramfsMaxFiles → (fs i).inUse = true →
    ∀ dir base, (fs i).name = dir ++ '/' :: base → '/' ∉ base →
      dir = [] ∨ ∃ j, j < ramfsMaxFiles ∧ (fs j).inUse = true ∧ (fs j).isDir = true ∧
        (fs j).name = dir

theorem ramfsTree_init (fs : Ramfs) : RamfsTree (ramfsInit fs) :=
  ⟨fun i _ h => by simp [ramfsInit] at h, fun i j _ _ h => by simp [ramfsInit] at h,
    fun i _ h => by simp [ramfsInit] at h⟩

section Lookup

variable {fs : Ramfs} {name : CStr} {idx : Nat}

theorem ramfsFindName_some (h : ramfsFindName fs name = some idx) :
    idx < ramfsMaxFiles ∧ (fs idx).inUse = true ∧ (fs idx).name = name := by
  have hmem := List.mem_range.mp (List.mem_of_find?_eq_some h)
  have hfound := List.find?_some h
  simp only [Bool.and_eq_true, beq_iff_eq] at hfound
  exact ⟨hmem, hfound⟩

theorem ramfsFindName_none (h : ramfsFindName fs name = none) {i : Nat} (hi : i < ramfsMaxFiles)
    (huse : (fs i).inUse = true) : (fs i).name ≠ name := by
  intro heq
  have := List.find?_eq_none.mp h i (List.mem_range.mpr hi)
  simp [huse, heq] at this

theorem ramfsFindFree_some (h : ramfsFindFree fs = some idx) :
    idx < ramfsMaxFiles ∧ (fs idx).inUse = false := by
  have hmem := List.mem_range.mp (List.mem_of_find?_eq_some h)
  have hfound := List.find?_some h
  exact ⟨hmem, by simpa using hfound⟩

end Lookup

/-- Calls that change neither a name nor what kind of entry it is keep the tree. -/
theorem RamfsTree.congr {fs fs' : Ramfs} (h : RamfsTree fs)
    (hsame : ∀ i, (fs' i).name = (fs i).name ∧ (fs' i).inUse = (fs i).inUse ∧
      (fs' i).isDir = (fs i).isDir) : RamfsTree fs' := by
  refine ⟨fun i hi huse => ?_, fun i j hi hj hui huj heq => ?_, fun i hi huse dir base hn hb => ?_⟩
  · rw [(hsame i).1]
    exact h.canonical i hi (by rw [← (hsame i).2.1]; exact huse)
  · rw [(hsame i).1, (hsame j).1] at heq
    rw [(hsame i).2.1] at hui
    rw [(hsame j).2.1] at huj
    exact h.distinct i j hi hj hui huj heq
  · rw [(hsame i).1] at hn
    rw [(hsame i).2.1] at huse
    refine (h.parent i hi huse dir base hn hb).imp_right ?_
    rintro ⟨j, hj, huj, hdj, hnj⟩
    exact ⟨j, hj, by rw [(hsame j).2.1]; exact huj, by rw [(hsame j).2.2]; exact hdj,
      by rw [(hsame j).1]; exact hnj⟩

/-! ### Creation -/

/-- A creation once its path is normalised. -/
theorem ramfsAdd_eq (fs : Ramfs) {name : Option CStr} {path : CStr}
    (hnorm : ramfsNormalize name = some path) (fill : RamfsFile → RamfsFile) :
    ramfsAdd fs name fill =
      if path = ['/'] ∨ ramfsParentExists fs path = false ∨ (ramfsFindName fs path).isSome then
        (fs, (-1 : Int))
      else match ramfsFindFree fs with
        | none => (fs, -1)
        | some idx => (Function.update fs idx (fill { fs idx with name := path }), (idx : Int)) := by
  obtain ⟨s, -, hs⟩ := Option.bind_eq_some_iff.mp hnorm
  obtain ⟨hcanon, hlen⟩ := normalizePath_canonical hs
  unfold ramfsAdd
  rw [hnorm]
  dsimp only
  by_cases hroot : path = ['/']
  · rw [if_pos hroot, if_pos (.inl hroot)]
  rw [if_neg hroot]
  by_cases hcheck : ramfsParentExists fs path = false ∨ (ramfsFindName fs path).isSome
  · rw [if_pos hcheck, if_pos (.inr hcheck)]
  rw [if_neg hcheck, if_neg (not_or.mpr ⟨hroot, hcheck⟩)]
  cases ramfsFindFree fs with
  | none => rfl
  | some idx =>
      dsimp only
      have hne : path.length ≠ 0 := by
        obtain ⟨rest, hrest, -⟩ := hcanon.resolve_left hroot
        simp [hrest]
      rw [pathLenLimited, if_pos (by omega)]
      dsimp only
      rw [if_neg hne, List.take_length]

/-- A creation fails and does nothing, or puts a checked canonical name into a free entry. -/
theorem ramfsAdd_cases (fs : Ramfs) (name : Option CStr) (fill : RamfsFile → RamfsFile) :
    ramfsAdd fs name fill = (fs, -1) ∨
      ∃ path idx, ramfsNormalize name = some path ∧ CanonicalName path ∧
        path.length < ramfsMaxName ∧ ramfsParentExists fs path = true ∧ ramfsFindName fs path = none ∧
        ramfsFindFree fs = some idx ∧
        ramfsAdd fs name fill =
          (Function.update fs idx (fill { fs idx with name := path }), (idx : Int)) := by
  cases hnorm : ramfsNormalize name with
  | none => exact .inl (by rw [ramfsAdd, hnorm])
  | some path =>
      rw [ramfsAdd_eq fs hnorm]
      obtain ⟨s, -, hs⟩ := Option.bind_eq_some_iff.mp hnorm
      obtain ⟨hcanon, hlen⟩ := normalizePath_canonical hs
      split
      · exact .inl rfl
      · rename_i hcheck
        simp only [not_or, Bool.not_eq_false, Bool.not_eq_true, Option.isSome_eq_false_iff,
          Option.isNone_iff_eq_none] at hcheck
        cases hfree : ramfsFindFree fs with
        | none => exact .inl rfl
        | some idx =>
            exact .inr ⟨path, idx, rfl, hcanon.resolve_left hcheck.1, hlen, hcheck.2.1, hcheck.2.2,
              rfl, rfl⟩

/-- What the parent check guarantees. -/
theorem ramfsParentExists_dir {fs : Ramfs} {path dir base : CStr} (hcanon : CanonicalName path)
    (hlen : path.length < ramfsMaxName) (hparent : ramfsParentExists fs path = true)
    (hpath : path = dir ++ '/' :: base) (hbase : '/' ∉ base) :
    dir = [] ∨ ∃ j, j < ramfsMaxFiles ∧ (fs j).inUse = true ∧ (fs j).isDir = true ∧
      (fs j).name = dir := by
  unfold ramfsParentExists at hparent
  rw [pathParent_eq hcanon hlen hpath hbase] at hparent
  dsimp only at hparent
  by_cases hdir : dir = []
  · exact Or.inl hdir
  · rw [if_neg hdir] at hparent
    refine Or.inr ?_
    -- The name before the slash starts with a slash of its own, so it is not the root.
    have hroot : dir ≠ ['/'] := by
      rintro rfl
      obtain ⟨rest, hrest, hsegs⟩ := hcanon
      rw [hpath] at hrest
      obtain rfl : '/' :: base = rest := (List.cons.inj hrest).2
      exact (hsegs [] (by simp [List.splitOn, List.splitOnP_cons_eq_if_modifyHead])).1 rfl
    rw [if_neg hroot] at hparent
    cases hfind : ramfsFindName fs dir with
    | none =>
        rw [hfind] at hparent
        simp at hparent
    | some j =>
        rw [hfind] at hparent
        obtain ⟨hj, huse, hname⟩ := ramfsFindName_some hfind
        exact ⟨j, hj, huse, hparent, hname⟩

theorem RamfsTree.add {fs : Ramfs} (h : RamfsTree fs) (name : Option CStr)
    {fill : RamfsFile → RamfsFile} (hname : ∀ f, (fill f).name = f.name) :
    RamfsTree (ramfsAdd fs name fill).1 := by
  rcases ramfsAdd_cases fs name fill with
    heq | ⟨path, idx, -, hcanon, hlen, hparent, hnew, hfree, heq⟩
  · rw [heq]
    exact h
  · obtain ⟨hidx, hunused⟩ := ramfsFindFree_some hfree
    rw [heq]
    dsimp only
    -- An entry of the new table is the new one, or an old one that was in use.
    have hold : ∀ i, i ≠ idx → Function.update fs idx (fill { fs idx with name := path }) i = fs i :=
      fun i hi => Function.update_of_ne hi _ _
    have hnewname : (fill { fs idx with name := path }).name = path := hname _
    have hkept : ∀ dir, (dir = [] ∨ ∃ j, j < ramfsMaxFiles ∧ (fs j).inUse = true ∧
        (fs j).isDir = true ∧ (fs j).name = dir) →
        dir = [] ∨ ∃ j, j < ramfsMaxFiles ∧
          (Function.update fs idx (fill { fs idx with name := path }) j).inUse = true ∧
          (Function.update fs idx (fill { fs idx with name := path }) j).isDir = true ∧
          (Function.update fs idx (fill { fs idx with name := path }) j).name = dir := by
      rintro dir (hdir | ⟨j, hj, huj, hdj, hnj⟩)
      · exact Or.inl hdir
      · have hne : j ≠ idx := by
          rintro rfl
          rw [hunused] at huj
          exact Bool.noConfusion huj
        refine Or.inr ⟨j, hj, ?_⟩
        rw [hold j hne]
        exact ⟨huj, hdj, hnj⟩
    refine ⟨fun i hi hui => ?_, fun i j hi hj hui huj hij => ?_, fun i hi hui dir base hn hb => ?_⟩
    · by_cases hii : i = idx
      · rw [hii, Function.update_self, hnewname]
        exact hcanon
      · rw [hold i hii] at hui ⊢
        exact h.canonical i hi hui
    · by_cases hii : i = idx <;> by_cases hjj : j = idx
      · rw [hii, hjj]
      · rw [hii, Function.update_self, hnewname, hold j hjj] at hij
        rw [hold j hjj] at huj
        exact absurd hij.symm (ramfsFindName_none hnew hj huj)
      · rw [hjj, Function.update_self, hnewname, hold i hii] at hij
        rw [hold i hii] at hui
        exact absurd hij (ramfsFindName_none hnew hi hui)
      · rw [hold i hii] at hui hij
        rw [hold j hjj] at huj hij
        exact h.distinct i j hi hj hui huj hij
    · refine hkept dir ?_
      by_cases hii : i = idx
      · rw [hii, Function.update_self, hnewname] at hn
        exact ramfsParentExists_dir hcanon hlen hparent hn hb
      · rw [hold i hii] at hui hn
        exact h.parent i hi hui dir base hn hb

/-! ### Removal -/

/-- A directory with an entry below it is found to have children. -/
theorem ramfsDirHasChildren_of_child {fs : Ramfs} {path base : CStr} {i : Nat}
    (hlen : path.length < ramfsMaxName) (hroot : path ≠ ['/']) (hi : i < ramfsMaxFiles)
    (huse : (fs i).inUse = true) (hname : (fs i).name = path ++ '/' :: base) :
    ramfsDirHasChildren fs path = true := by
  unfold ramfsDirHasChildren
  rw [pathLenLimited, if_pos (by omega)]
  dsimp only
  rw [List.any_eq_true]
  refine ⟨i, List.mem_range.mpr hi, ?_⟩
  have hne : ¬ (path ++ '/' :: base = path) := by simp
  unfold ramfsIsBelow
  rw [huse, hname, if_neg (by simp), if_neg hne, if_neg hroot]
  simp

/-- An entry that no name continues may go. -/
theorem RamfsTree.remove {fs : Ramfs} (h : RamfsTree fs) {idx : Nat} {gone : RamfsFile}
    (hgone : gone.inUse = false)
    (hleaf : (fs idx).isDir = true → ∀ i, i < ramfsMaxFiles → (fs i).inUse = true →
      ∀ base, (fs i).name ≠ (fs idx).name ++ '/' :: base) :
    RamfsTree (Function.update fs idx gone) := by
  -- Whatever is still in use is an old entry other than `idx`.
  have hkept : ∀ i, (Function.update fs idx gone i).inUse = true → i ≠ idx := by
    rintro i hui rfl
    rw [Function.update_self, hgone] at hui
    exact Bool.noConfusion hui
  refine ⟨fun i hi hui => ?_, fun i j hi hj hui huj hij => ?_, fun i hi hui dir base hn hb => ?_⟩
  · have hii := hkept i hui
    rw [Function.update_of_ne hii] at hui ⊢
    exact h.canonical i hi hui
  · have hii := hkept i hui
    have hjj := hkept j huj
    rw [Function.update_of_ne hii] at hui hij
    rw [Function.update_of_ne hjj] at huj hij
    exact h.distinct i j hi hj hui huj hij
  · have hii := hkept i hui
    rw [Function.update_of_ne hii] at hui hn
    refine (h.parent i hi hui dir base hn hb).imp_right ?_
    rintro ⟨j, hj, huj, hdj, hnj⟩
    have hjj : j ≠ idx := by
      rintro rfl
      exact hleaf hdj i hi hui base (by rw [hn, hnj])
    refine ⟨j, hj, ?_⟩
    rw [Function.update_of_ne hjj]
    exact ⟨huj, hdj, hnj⟩

/-- A removal fails and does nothing, or clears the entry with that name. -/
theorem ramfsUnlink_cases (fs : Ramfs) (name : Option CStr) :
    ramfsUnlink fs name = (fs, -1) ∨
      ∃ path idx, ramfsNormalize name = some path ∧ path ≠ ['/'] ∧
        ramfsFindName fs path = some idx ∧
        ¬ ((fs idx).isDir = true ∧ ramfsDirHasChildren fs path = true) ∧
        ramfsUnlink fs name = (Function.update fs idx
          { fs idx with inUse := false, isDir := false, name := [], size := 0 }, 0) := by
  unfold ramfsUnlink
  cases hnorm : ramfsNormalize name with
  | none => exact .inl rfl
  | some path =>
      dsimp only
      by_cases hroot : path = ['/']
      · exact .inl (by rw [if_pos hroot])
      rw [if_neg hroot]
      cases hfind : ramfsFindName fs path with
      | none => exact .inl rfl
      | some idx =>
          dsimp only
          by_cases hfull : (fs idx).isDir = true ∧ ramfsDirHasChildren fs path = true
          · exact .inl (by rw [if_pos hfull])
          · rw [if_neg hfull]
            exact .inr ⟨path, idx, rfl, hroot, hfind, hfull, rfl⟩

theorem RamfsTree.unlink {fs : Ramfs} (h : RamfsTree fs) (name : Option CStr) :
    RamfsTree (ramfsUnlink fs name).1 := by
  rcases ramfsUnlink_cases fs name with heq | ⟨path, idx, hnorm, hroot, hfind, hempty, heq⟩
  · rw [heq]
    exact h
  · rw [heq]
    obtain ⟨s, -, hs⟩ := Option.bind_eq_some_iff.mp hnorm
    obtain ⟨-, hlen⟩ := normalizePath_canonical hs
    obtain ⟨-, -, rfl⟩ := ramfsFindName_some hfind
    refine h.remove rfl fun hdir i hi hui base hn => hempty ⟨hdir, ?_⟩
    exact ramfsDirHasChildren_of_child hlen hroot hi hui hn

/-! ### The other calls -/

theorem RamfsTree.write {fs fs' : Ramfs} (h : RamfsTree fs) {fd : Int} {off : Nat}
    {buf : List UInt8} {ret : Int} (hcall : ramfsWrite fs fd off buf = some (fs', ret)) :
    RamfsTree fs' := by
  have hkeep : ∀ r : Int, some (fs, r) = some (fs', ret) → RamfsTree fs' := by
    intro r hr
    obtain ⟨rfl, -⟩ := Prod.mk.inj (Option.some.inj hr)
    exact h
  unfold ramfsWrite at hcall
  dsimp only at hcall
  generalize (if (fs fd.toNat).capacity < (off + buf.length) % 2 ^ 64 then
    (fs fd.toNat).capacity - off else buf.length) = toWrite at hcall
  split at hcall
  · exact hkeep _ hcall
  · split at hcall
    · exact hkeep _ hcall
    · split at hcall
      · exact hkeep _ hcall
      · split at hcall
        · simp at hcall
        · obtain ⟨rfl, -⟩ := Prod.mk.inj (Option.some.inj hcall)
          refine h.congr fun i => ?_
          by_cases hi : i = fd.toNat
          · rw [hi, Function.update_self]
            exact ⟨rfl, rfl, rfl⟩
          · rw [Function.update_of_ne hi]
            exact ⟨rfl, rfl, rfl⟩

/-- A change fails and does nothing, or is made to the entry with that name. -/
theorem ramfsChange_cases (fs : Ramfs) (name : Option CStr) (change : RamfsFile → RamfsFile) :
    ramfsChange fs name change = (fs, -1) ∨
      ∃ path idx, ramfsNormalize name = some path ∧ path ≠ ['/'] ∧
        ramfsFindName fs path = some idx ∧
        ramfsChange fs name change = (Function.update fs idx (change (fs idx)), 0) := by
  unfold ramfsChange
  cases hnorm : ramfsNormalize name with
  | none => exact .inl rfl
  | some path =>
      dsimp only
      by_cases hroot : path = ['/']
      · exact .inl (by rw [if_pos hroot])
      rw [if_neg hroot]
      cases hfind : ramfsFindName fs path with
      | none => exact .inl rfl
      | some idx => exact .inr ⟨path, idx, rfl, hroot, hfind, rfl⟩

theorem RamfsTree.change {fs : Ramfs} (h : RamfsTree fs) (path : Option CStr)
    {change : RamfsFile → RamfsFile} (hsame : ∀ f, (change f).name = f.name ∧
      (change f).inUse = f.inUse ∧ (change f).isDir = f.isDir) :
    RamfsTree (ramfsChange fs path change).1 := by
  rcases ramfsChange_cases fs path change with heq | ⟨-, idx, -, -, -, heq⟩
  · rw [heq]
    exact h
  · rw [heq]
    refine h.congr fun i => ?_
    dsimp only
    by_cases hi : i = idx
    · rw [hi, Function.update_self]
      exact hsame _
    · rw [Function.update_of_ne hi]
      exact ⟨rfl, rfl, rfl⟩

/-! ### Runs -/

inductive RamfsCall where
  | mkdir (name : Option CStr)
  | create (name : Option CStr)
  | symlink (target : CStr) (linkpath : Option CStr)
  | write (fd : Int) (off : Nat) (buf : List UInt8)
  | chmod (path : Option CStr) (mode : Nat)
  | chown (path : Option CStr) (uid gid : Nat)
  | unlink (name : Option CStr)

/-- The table and the C result of a call that is defined. -/
def Ramfs.call (fs : Ramfs) : RamfsCall → Option (Ramfs × Int)
  | .mkdir name => some (ramfsMkdir fs name)
  | .create name => some (ramfsCreate fs name)
  | .symlink target linkpath => some (ramfsSymlink fs target linkpath)
  | .write fd off buf => ramfsWrite fs fd off buf
  | .chmod path mode => some (ramfsChmod fs path mode)
  | .chown path uid gid => some (ramfsChown fs path uid gid)
  | .unlink name => some (ramfsUnlink fs name)

def Ramfs.step (fs : Ramfs) (c : RamfsCall) (fs' : Ramfs) : Prop :=
  ∃ ret, fs.call c = some (fs', ret)

theorem RamfsTree.call {fs : Ramfs} (h : RamfsTree fs) {c : RamfsCall} {r : Ramfs × Int}
    (hcall : fs.call c = some r) : RamfsTree r.1 := by
  cases c with
  | mkdir name =>
      rw [← Option.some.inj hcall]
      exact h.add name fun f => rfl
  | create name =>
      rw [← Option.some.inj hcall]
      exact h.add name fun f => rfl
  | symlink target linkpath =>
      rw [← Option.some.inj hcall]
      exact h.add linkpath fun f => rfl
  | write fd off buf => exact h.write hcall
  | chmod path mode =>
      rw [← Option.some.inj hcall]
      exact h.change path fun f => ⟨rfl, rfl, rfl⟩
  | chown path uid gid =>
      rw [← Option.some.inj hcall]
      exact h.change path fun f => ⟨rfl, rfl, rfl⟩
  | unlink name =>
      rw [← Option.some.inj hcall]
      exact h.unlink name

/--
**The RAM file system is a tree after every run.**  Whatever strings the calls were given and
whichever of them failed, the names in use are canonical and distinct, and each lies in the root
or in a directory that is in use.
-/
theorem ramfs_names_form_tree (fs₀ : Ramfs) {calls : List RamfsCall} {fs : Ramfs}
    (hrun : Executes Ramfs.step (ramfsInit fs₀) calls fs) : RamfsTree fs :=
  hrun.invariant (fun _ _ _ h hstep => h.call hstep.choose_spec) (ramfsTree_init fs₀)

/-- Storage that was never written. -/
def blankRamfs : Ramfs := fun _ =>
  { name := [], data := fun _ => 0, size := 0, capacity := 0, mode := 0, uid := 0, gid := 0,
    symlinkTarget := [], isDir := false, isSymlink := false, inUse := false }

/-- A directory, a file in it by a path that is not normal, and a removal that is refused. -/
theorem ramfs_names_form_tree_nested :
    ∃ fs, Executes Ramfs.step (ramfsInit blankRamfs)
        [.mkdir (some "/usr".toList), .create (some "//usr/./a".toList),
          .unlink (some "/usr/".toList)] fs ∧
      (fs 0).name = "/usr".toList ∧ (fs 1).name = "/usr/a".toList ∧ RamfsTree fs := by
  have hrun : Executes Ramfs.step (ramfsInit blankRamfs)
      [.mkdir (some "/usr".toList), .create (some "//usr/./a".toList),
        .unlink (some "/usr/".toList)] _ :=
    .cons ⟨_, rfl⟩ (.cons ⟨_, rfl⟩ (.cons ⟨_, rfl⟩ (.nil _)))
  exact ⟨_, hrun, by decide +kernel, by decide +kernel, ramfs_names_form_tree blankRamfs hrun⟩

end BrightS
