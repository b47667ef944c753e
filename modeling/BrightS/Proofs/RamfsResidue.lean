/-
What deleted files leave behind.

Two histories may have used the entries and their storage differently and still show the
same files.  `shown` is what can be seen of a table: for each name the fields and bytes
its entry answers for.  An operation that is the same for both then changes both alike,
with two exceptions: a symbolic link keeps the owner its entry had before, and a write
beyond the end of a file uncovers what was stored there (`ramfs_no_residue_iff`).
-/
import BrightS.Proofs.RamfsFiles
import BrightS.Proofs.RamfsPaths

namespace BrightS

open Runs

/-! ### What is visible -/

/-- What can be learnt about an entry. -/
@[ext] structure Shown where
  isDir : Bool
  isSymlink : Bool
  size : Nat
  mode : Nat
  uid : Nat
  gid : Nat
  bytes : List UInt8
  target : CStr

def RamfsFile.shown (f : RamfsFile) : Shown where
  isDir := f.isDir
  isSymlink := f.isSymlink
  size := f.size
  mode := f.mode
  uid := f.uid
  gid := f.gid
  bytes := f.content
  target := if f.isSymlink = true then f.symlinkTarget else []

theorem shown_fields {f g : RamfsFile} (h : f.shown = g.shown) :
    (f.isDir = g.isDir ∧ f.isSymlink = g.isSymlink) ∧ f.size = g.size ∧ f.mode = g.mode ∧
      f.uid = g.uid ∧ f.gid = g.gid :=
  ⟨⟨congrArg Shown.isDir h, congrArg Shown.isSymlink h⟩, congrArg Shown.size h,
    congrArg Shown.mode h, congrArg Shown.uid h, congrArg Shown.gid h⟩

/-- The visible entries by name. -/
def shown (fs : Ramfs) (name : CStr) : Option Shown :=
  (ramfsFindName fs name).map fun i => (fs i).shown

/-! ### Operations -/

/-- The operations, each by path; reading and writing open the path first. -/
inductive FsOp where
  | mkdir (path : Option CStr)
  | create (path : Option CStr)
  | symlink (target : CStr) (path : Option CStr)
  | unlink (path : Option CStr)
  | chmod (path : Option CStr) (mode : Nat)
  | chown (path : Option CStr) (uid gid : Nat)
  | stat (path : Option CStr)
  | readlink (path : Option CStr) (bufsize : Nat)
  | read (path : Option CStr) (off len : Nat)
  | write (path : Option CStr) (off : Nat) (buf : List UInt8)

inductive FsAnswer where
  | done (ok : Bool)
  | stat (st : Option RamfsStat)
  | target (buf : Option CStr)
  | bytes (ret : Int) (buf : List UInt8)
  | wrote (ret : Int)

/-- Whether a call succeeded; the number of the entry is no property of the file. -/
def succeeded (r : Ramfs × Int) : Ramfs × FsAnswer := (r.1, .done (decide (0 ≤ r.2)))

def FsOp.run (fs : Ramfs) : FsOp → Option (Ramfs × FsAnswer)
  | .mkdir path => some (succeeded (ramfsMkdir fs path))
  | .create path => some (succeeded (ramfsCreate fs path))
  | .symlink target path => some (succeeded (ramfsSymlink fs target path))
  | .unlink path => some (succeeded (ramfsUnlink fs path))
  | .chmod path mode => some (succeeded (ramfsChmod fs path mode))
  | .chown path uid gid => some (succeeded (ramfsChown fs path uid gid))
  | .stat path => some (fs, .stat (ramfsStat fs path))
  | .readlink path bufsize => some (fs, .target (ramfsReadlink fs path bufsize))
  | .read path off len =>
      match ramfsOpen fs path with
      | none => some (fs, .bytes (-1) [])
      | some idx => some (fs, .bytes (ramfsRead fs idx off len).1 (ramfsRead fs idx off len).2)
  | .write path off buf =>
      match ramfsOpen fs path with
      | none => some (fs, .wrote (-1))
      | some idx => (ramfsWrite fs idx off buf).map fun r => (r.1, .wrote r.2)

/-- The operation answers the same on both tables and leaves the same visible entries. -/
def Alike (fs₁ fs₂ : Ramfs) (op : FsOp) : Prop :=
  match op.run fs₁, op.run fs₂ with
  | some r₁, some r₂ => r₁.2 = r₂.2 ∧ shown r₁.1 = shown r₂.1
  | none, none => True
  | _, _ => False

/-- What the operation uncovers is the same in both tables: the owner left in the entry that a
symbolic link takes, and the bytes between the end of a file and a write behind it. -/
def SameResidue (fs₁ fs₂ : Ramfs) : FsOp → Prop
  | .symlink target path => ∀ i₁ i₂ : Nat,
      (ramfsSymlink fs₁ target path).2 = i₁ → (ramfsSymlink fs₂ target path).2 = i₂ →
        (fs₁ i₁).uid = (fs₂ i₂).uid ∧ (fs₁ i₁).gid = (fs₂ i₂).gid
  | .write path off buf => ∀ i₁ i₂, ramfsOpen fs₁ path = some i₁ → ramfsOpen fs₂ path = some i₂ →
      (∃ fs' n, ramfsWrite fs₁ i₁ off buf = some (fs', n) ∧ 0 ≤ n) →
        ∀ o, (fs₁ i₁).size ≤ o → o < off → (fs₁ i₁).data o = (fs₂ i₂).data o
  | _ => True

/-! ### The table as a map from names -/

section Names

variable {fs : Ramfs} {path name : CStr} {idx : Nat} {f : RamfsFile}

/-- A free entry gets a name that was not there. -/
theorem shown_add (hfree : ramfsFindFree fs = some idx) (hnew : ramfsFindName fs path = none)
    (hname : f.name = path) (huse : f.inUse = true) :
    shown (Function.update fs idx f) = Function.update (shown fs) path (some f.shown) := by
  obtain ⟨hidx, hunused⟩ := ramfsFindFree_some hfree
  funext n
  by_cases hn : n = path
  · rw [hn, Function.update_self]
    cases hfind : ramfsFindName (Function.update fs idx f) path with
    | none =>
        have hmissed := ramfsFindName_none hfind hidx (by rw [Function.update_self, huse])
        rw [Function.update_self] at hmissed
        exact absurd hname hmissed
    | some i =>
        have hi : i = idx := by
          by_contra hne
          obtain ⟨hlt, hui, hni⟩ := ramfsFindName_some hfind
          rw [Function.update_of_ne hne] at hui hni
          exact ramfsFindName_none hnew hlt hui hni
        rw [shown, hfind, Option.map_some, hi, Function.update_self]
  · rw [Function.update_of_ne hn, shown, shown]
    have hfind : ramfsFindName (Function.update fs idx f) n = ramfsFindName fs n := by
      apply ramfsFindName_congr
      intro i _
      by_cases hi : i = idx
      · rw [hi, Function.update_self, hunused, hname]
        simp [Ne.symm hn]
      · rw [Function.update_of_ne hi]
    rw [hfind]
    cases hold : ramfsFindName fs n with
    | none => rfl
    | some i =>
        have hne : i ≠ idx := by
          rintro rfl
          rw [(ramfsFindName_some hold).2.1] at hunused
          exact Bool.noConfusion hunused
        rw [Option.map_some, Option.map_some, Function.update_of_ne hne]

/-- The entry with a name goes. -/
theorem shown_remove (h : RamfsTree fs) (hfind : ramfsFindName fs path = some idx)
    (hunused : f.inUse = false) :
    shown (Function.update fs idx f) = Function.update (shown fs) path none := by
  obtain ⟨hidx, huse, hname⟩ := ramfsFindName_some hfind
  funext n
  by_cases hn : n = path
  · rw [hn, Function.update_self, shown, Option.map_eq_none_iff]
    cases hgone : ramfsFindName (Function.update fs idx f) path with
    | none => rfl
    | some i =>
        obtain ⟨hlt, hui, hni⟩ := ramfsFindName_some hgone
        have hne : i ≠ idx := by
          rintro rfl
          rw [Function.update_self, hunused] at hui
          exact Bool.noConfusion hui
        rw [Function.update_of_ne hne] at hui hni
        exact absurd (h.distinct i idx hlt hidx hui huse (hni.trans hname.symm)) hne
  · rw [Function.update_of_ne hn, shown, shown]
    have hsame : ramfsFindName (Function.update fs idx f) n = ramfsFindName fs n := by
      apply ramfsFindName_congr
      intro i _
      by_cases hi : i = idx
      · rw [hi, Function.update_self, hunused, hname]
        simp [Ne.symm hn]
      · rw [Function.update_of_ne hi]
    rw [hsame]
    cases hold : ramfsFindName fs n with
    | none => rfl
    | some i =>
        have hne : i ≠ idx := by
          rintro rfl
          exact hn ((ramfsFindName_some hold).2.2.symm.trans hname)
        rw [Option.map_some, Option.map_some, Function.update_of_ne hne]

/-- The entry with a name changes otherwise. -/
theorem shown_change (hfind : ramfsFindName fs path = some idx) (hname : f.name = (fs idx).name)
    (huse : f.inUse = (fs idx).inUse) :
    shown (Function.update fs idx f) = Function.update (shown fs) path (some f.shown) := by
  have hold := ramfsFindName_some hfind
  have hsame : ∀ n, ramfsFindName (Function.update fs idx f) n = ramfsFindName fs n := by
    intro n
    apply ramfsFindName_congr
    intro i _
    by_cases hi : i = idx
    · rw [hi, Function.update_self, hname, huse]
    · rw [Function.update_of_ne hi]
  funext n
  by_cases hn : n = path
  · rw [hn, Function.update_self, shown, hsame, hfind, Option.map_some, Function.update_self]
  · rw [Function.update_of_ne hn, shown, shown, hsame]
    cases hother : ramfsFindName fs n with
    | none => rfl
    | some i =>
        have hne : i ≠ idx := by
          rintro rfl
          exact hn ((ramfsFindName_some hother).2.2.symm.trans hold.2.2)
        rw [Option.map_some, Option.map_some, Function.update_of_ne hne]

end Names

/-! ### Two tables that show the same -/

theorem shown_isSome {fs : Ramfs} {n : CStr} :
    (shown fs n).isSome ↔ ∃ i, ramfsFindName fs n = some i := by
  rw [shown, Option.isSome_map, Option.isSome_iff_exists]

/-- The names in use. -/
def usedNames (fs : Ramfs) : Finset CStr :=
  ((Finset.range ramfsMaxFiles).filter fun i => (fs i).inUse = true).image fun i => (fs i).name

theorem mem_usedNames {fs : Ramfs} {n : CStr} : n ∈ usedNames fs ↔ (shown fs n).isSome := by
  rw [shown_isSome, usedNames, Finset.mem_image]
  constructor
  · rintro ⟨i, hi, hn⟩
    obtain ⟨hlt, huse⟩ := Finset.mem_filter.mp hi
    cases hfind : ramfsFindName fs n with
    | none => exact absurd hn (ramfsFindName_none hfind (Finset.mem_range.mp hlt) huse)
    | some j => exact ⟨j, rfl⟩
  · rintro ⟨i, hi⟩
    obtain ⟨hlt, huse, hn⟩ := ramfsFindName_some hi
    exact ⟨i, Finset.mem_filter.mpr ⟨Finset.mem_range.mpr hlt, huse⟩, hn⟩

/-- There is a free entry unless all names that fit are in use. -/
theorem ramfsFindFree_none_iff {fs : Ramfs} (h : RamfsTree fs) :
    ramfsFindFree fs = none ↔ (usedNames fs).card = ramfsMaxFiles := by
  have hcard : (usedNames fs).card =
      ((Finset.range ramfsMaxFiles).filter fun i => (fs i).inUse = true).card := by
    apply Finset.card_image_of_injOn
    intro i hi j hj hij
    obtain ⟨hilt, hiu⟩ := Finset.mem_filter.mp hi
    obtain ⟨hjlt, hju⟩ := Finset.mem_filter.mp hj
    exact h.distinct i j (Finset.mem_range.mp hilt) (Finset.mem_range.mp hjlt) hiu hju hij
  have hall : (((Finset.range ramfsMaxFiles).filter fun i => (fs i).inUse = true).card =
      (Finset.range ramfsMaxFiles).card) ↔ ∀ i ∈ Finset.range ramfsMaxFiles, (fs i).inUse = true :=
    Finset.card_filter_eq_iff
  rw [Finset.card_range] at hall
  rw [hcard, hall]
  unfold ramfsFindFree
  rw [List.find?_eq_none]
  simp

/-- The name of a file below a directory. -/
def nameBelow (path n : CStr) : Bool :=
  if n = path then false
  else if path = ['/'] then n.head? == some '/' && n.length != 1
  else path.isPrefixOf n && n[path.length]? == some '/'

theorem ramfsDirHasChildren_iff (fs : Ramfs) {path : CStr} (hlen : path.length < ramfsMaxName) :
    ramfsDirHasChildren fs path = true ↔ ∃ n, (shown fs n).isSome ∧ nameBelow path n = true := by
  have hbelow : ∀ f : RamfsFile, ramfsIsBelow path f = true ↔
      f.inUse = true ∧ nameBelow path f.name = true := by
    intro f
    cases huse : f.inUse with
    | false => simp [ramfsIsBelow, huse]
    | true => simp [ramfsIsBelow, nameBelow, huse]
  unfold ramfsDirHasChildren
  rw [pathLenLimited, if_pos (by omega)]
  dsimp only
  rw [List.any_eq_true]
  constructor
  · rintro ⟨i, hi, hbel⟩
    obtain ⟨huse, hname⟩ := (hbelow _).mp hbel
    refine ⟨(fs i).name, ?_, hname⟩
    rw [← mem_usedNames, usedNames, Finset.mem_image]
    exact ⟨i, Finset.mem_filter.mpr ⟨Finset.mem_range.mpr (List.mem_range.mp hi), huse⟩, rfl⟩
  · rintro ⟨n, hn, hname⟩
    obtain ⟨i, hi⟩ := shown_isSome.mp hn
    obtain ⟨hlt, huse, rfl⟩ := ramfsFindName_some hi
    exact ⟨i, List.mem_range.mpr hlt, (hbelow _).mpr ⟨huse, hname⟩⟩

section Twins

variable {fs₁ fs₂ : Ramfs}

/-- An entry of one table and what the other has under its name. -/
theorem found_both (hsame : shown fs₁ = shown fs₂) (n : CStr) :
    (ramfsFindName fs₁ n = none ∧ ramfsFindName fs₂ n = none) ∨
      ∃ i₁ i₂, ramfsFindName fs₁ n = some i₁ ∧ ramfsFindName fs₂ n = some i₂ ∧
        (fs₁ i₁).shown = (fs₂ i₂).shown := by
  have hn := congrFun hsame n
  unfold shown at hn
  cases h₁ : ramfsFindName fs₁ n with
  | none =>
      rw [h₁, Option.map_none, eq_comm, Option.map_eq_none_iff] at hn
      exact .inl ⟨rfl, hn⟩
  | some i₁ =>
      rw [h₁, Option.map_some, eq_comm, Option.map_eq_some_iff] at hn
      obtain ⟨i₂, h₂, heq⟩ := hn
      exact .inr ⟨i₁, i₂, rfl, h₂, heq.symm⟩

theorem ramfsParentExists_twin (hsame : shown fs₁ = shown fs₂) (path : CStr) :
    ramfsParentExists fs₁ path = ramfsParentExists fs₂ path := by
  unfold ramfsParentExists
  cases pathParent path ramfsMaxName with
  | none => rfl
  | some parent =>
      dsimp only
      rcases found_both hsame parent with ⟨h₁, h₂⟩ | ⟨i₁, i₂, h₁, h₂, heq⟩
      · rw [h₁, h₂]
      · rw [h₁, h₂]
        have hdir : (fs₁ i₁).isDir = (fs₂ i₂).isDir := congrArg Shown.isDir heq
        dsimp only
        rw [hdir]

theorem ramfsDirHasChildren_twin (hsame : shown fs₁ = shown fs₂) {path : CStr}
    (hlen : path.length < ramfsMaxName) :
    ramfsDirHasChildren fs₁ path = ramfsDirHasChildren fs₂ path := by
  rw [Bool.eq_iff_iff, ramfsDirHasChildren_iff fs₁ hlen, ramfsDirHasChildren_iff fs₂ hlen, hsame]

theorem ramfsFindFree_twin (h₁ : RamfsTree fs₁) (h₂ : RamfsTree fs₂)
    (hsame : shown fs₁ = shown fs₂) : ramfsFindFree fs₁ = none ↔ ramfsFindFree fs₂ = none := by
  have hnames : usedNames fs₁ = usedNames fs₂ := by
    ext n
    rw [mem_usedNames, mem_usedNames, hsame]
  rw [ramfsFindFree_none_iff h₁, ramfsFindFree_none_iff h₂, hnames]

end Twins

/-- An operation does to the table what some call does, or nothing. -/
theorem RamfsOk.run {fs : Ramfs} (h : RamfsOk fs) {op : FsOp} {r : Ramfs × FsAnswer}
    (hrun : op.run fs = some r) : RamfsOk r.1 := by
  cases op with
  | mkdir path =>
      rw [← Option.some.inj hrun]
      exact h.call (c := .mkdir path) rfl
  | create path =>
      rw [← Option.some.inj hrun]
      exact h.call (c := .create path) rfl
  | symlink target path =>
      rw [← Option.some.inj hrun]
      exact h.call (c := .symlink target path) rfl
  | unlink path =>
      rw [← Option.some.inj hrun]
      exact h.call (c := .unlink path) rfl
  | chmod path mode =>
      rw [← Option.some.inj hrun]
      exact h.call (c := .chmod path mode) rfl
  | chown path uid gid =>
      rw [← Option.some.inj hrun]
      exact h.call (c := .chown path uid gid) rfl
  | stat path =>
      rw [← Option.some.inj hrun]
      exact h
  | readlink path bufsize =>
      rw [← Option.some.inj hrun]
      exact h
  | read path off len =>
      cases hopen : ramfsOpen fs path with
      | none =>
          simp only [FsOp.run, hopen, Option.some.injEq] at hrun
          rw [← hrun]
          exact h
      | some idx =>
          simp only [FsOp.run, hopen, Option.some.injEq] at hrun
          rw [← hrun]
          exact h
  | write path off buf =>
      cases hopen : ramfsOpen fs path with
      | none =>
          simp only [FsOp.run, hopen, Option.some.injEq] at hrun
          rw [← hrun]
          exact h
      | some idx =>
          simp only [FsOp.run, hopen] at hrun
          obtain ⟨r', hcall, rfl⟩ := Option.map_eq_some_iff.mp hrun
          exact h.write hcall

/-- Two files that show the same do so after a write exactly when they have the same bytes between
their end and the write. -/
theorem shown_written_iff {f g : RamfsFile} (heq : f.shown = g.shown) (off : Nat)
    (buf : List UInt8) :
    (f.written off buf).shown = (g.written off buf).shown ↔
      ∀ o, f.size ≤ o → o < off → f.data o = g.data o := by
  have hsize : f.size = g.size := congrArg Shown.size heq
  have hold := (content_eq_iff hsize).mp (congrArg Shown.bytes heq)
  have hlen : (buf.take (toWrite off buf.length)).length = toWrite off buf.length := by
    rw [List.length_take, min_eq_left (toWrite_le _ _)]
  have hsize' : (f.written off buf).size = (g.written off buf).size := by
    simp [RamfsFile.written, hsize]
  constructor
  · intro hshown o hlo hhi
    have hbytes := (content_eq_iff hsize').mp (congrArg Shown.bytes hshown) o (by
      show o < max f.size (off + toWrite off buf.length)
      exact lt_max_of_lt_right (by omega))
    simp only [RamfsFile.written, storeBytes_apply] at hbytes
    rwa [if_neg (by omega), if_neg (by omega)] at hbytes
  · intro hgap
    have hbytes : (f.written off buf).shown.bytes = (g.written off buf).shown.bytes := by
      refine (content_eq_iff hsize').mpr fun o ho => ?_
      simp only [RamfsFile.written, storeBytes_apply]
      split_ifs with hin
      · rfl
      · by_cases hlt : o < f.size
        · exact hold o hlt
        · have hend : o < off + toWrite off buf.length :=
            (lt_max_iff.mp (show o < max f.size (off + toWrite off buf.length) from ho)).resolve_left hlt
          exact hgap o (by omega) (by omega)
    obtain ⟨⟨hdir, hlink⟩, -, hmode, huid, hgid⟩ := shown_fields heq
    have htarget : f.shown.target = g.shown.target := congrArg Shown.target heq
    exact Shown.ext hdir hlink hsize' hmode huid hgid hbytes htarget

/-! ### Every operation on two tables -/

section Alike

variable {fs₁ fs₂ : Ramfs} {op : FsOp}

/-- Operations that put one entry under a name are alike when the entries are. -/
theorem alike_update_iff (hsame : shown fs₁ = shown fs₂) {fs₁' fs₂' : Ramfs} {a : FsAnswer}
    {path : CStr} {v₁ v₂ : Option Shown} (hrun₁ : op.run fs₁ = some (fs₁', a))
    (hrun₂ : op.run fs₂ = some (fs₂', a))
    (hv₁ : shown fs₁' = Function.update (shown fs₁) path v₁)
    (hv₂ : shown fs₂' = Function.update (shown fs₂) path v₂) : Alike fs₁ fs₂ op ↔ v₁ = v₂ := by
  unfold Alike
  rw [hrun₁, hrun₂]
  dsimp only
  rw [hv₁, hv₂, hsame]
  constructor
  · rintro ⟨-, heq⟩
    have hpath := congrFun heq path
    rwa [Function.update_self, Function.update_self] at hpath
  · rintro rfl
    exact ⟨rfl, rfl⟩

/-- Operations that change nothing are alike when they answer the same. -/
theorem alike_of_answer (hsame : shown fs₁ = shown fs₂) {a : FsAnswer}
    (hrun₁ : op.run fs₁ = some (fs₁, a)) (hrun₂ : op.run fs₂ = some (fs₂, a)) :
    Alike fs₁ fs₂ op := by
  unfold Alike
  rw [hrun₁, hrun₂]
  exact ⟨rfl, hsame⟩

/-- A creation fails in both tables or puts an entry into each. -/
theorem ramfsAdd_twin (h₁ : RamfsOk fs₁) (h₂ : RamfsOk fs₂) (hsame : shown fs₁ = shown fs₂)
    (name : Option CStr) (fill : RamfsFile → RamfsFile)
    (hfill : ∀ f, (fill f).name = f.name ∧ (fill f).inUse = true) :
    (ramfsAdd fs₁ name fill = (fs₁, -1) ∧ ramfsAdd fs₂ name fill = (fs₂, -1)) ∨
      ∃ (path : CStr) (i₁ i₂ : Nat) (fs₁' fs₂' : Ramfs),
        ramfsAdd fs₁ name fill = (fs₁', (i₁ : Int)) ∧ ramfsAdd fs₂ name fill = (fs₂', (i₂ : Int)) ∧
        shown fs₁' = Function.update (shown fs₁) path
          (some (fill { fs₁ i₁ with name := path }).shown) ∧
        shown fs₂' = Function.update (shown fs₂) path
          (some (fill { fs₂ i₂ with name := path }).shown) := by
  cases hnorm : ramfsNormalize name with
  | none => exact .inl ⟨by rw [ramfsAdd, hnorm], by rw [ramfsAdd, hnorm]⟩
  | some path =>
      have hfind : (ramfsFindName fs₁ path).isSome = (ramfsFindName fs₂ path).isSome := by
        rcases found_both hsame path with ⟨hn₁, hn₂⟩ | ⟨i₁, i₂, hn₁, hn₂, -⟩
        · rw [hn₁, hn₂]
        · rw [hn₁, hn₂]
          rfl
      rw [ramfsAdd_eq fs₁ hnorm, ramfsAdd_eq fs₂ hnorm, ramfsParentExists_twin hsame, hfind]
      by_cases hcheck : path = ['/'] ∨ ramfsParentExists fs₂ path = false ∨
          (ramfsFindName fs₂ path).isSome
      · rw [if_pos hcheck, if_pos hcheck]
        exact .inl ⟨rfl, rfl⟩
      · rw [if_neg hcheck, if_neg hcheck]
        simp only [not_or, Bool.not_eq_true, Option.isSome_eq_false_iff,
          Option.isNone_iff_eq_none] at hcheck
        have hnew₁ : ramfsFindName fs₁ path = none := by
          rw [hcheck.2.2] at hfind
          simpa using hfind
        have hfree := ramfsFindFree_twin h₁.tree h₂.tree hsame
        cases hf₁ : ramfsFindFree fs₁ with
        | none =>
            rw [hfree.mp hf₁]
            exact .inl ⟨rfl, rfl⟩
        | some i₁ =>
            cases hf₂ : ramfsFindFree fs₂ with
            | none =>
                rw [hfree.mpr hf₂] at hf₁
                simp at hf₁
            | some i₂ =>
                exact .inr ⟨path, i₁, i₂, _, _, rfl, rfl,
                  shown_add hf₁ hnew₁ (hfill _).1 (hfill _).2,
                  shown_add hf₂ hcheck.2.2 (hfill _).1 (hfill _).2⟩

/-- A file or directory is made of nothing that was there before. -/
theorem alike_add (h₁ : RamfsOk fs₁) (h₂ : RamfsOk fs₂) (hsame : shown fs₁ = shown fs₂)
    (name : Option CStr) (fill : RamfsFile → RamfsFile)
    (hfill : ∀ f, (fill f).name = f.name ∧ (fill f).inUse = true)
    (hfresh : ∀ f g, (fill f).shown = (fill g).shown)
    (hrun : ∀ fs, op.run fs = some (succeeded (ramfsAdd fs name fill))) : Alike fs₁ fs₂ op := by
  rcases ramfsAdd_twin h₁ h₂ hsame name fill hfill with
    ⟨heq₁, heq₂⟩ | ⟨path, i₁, i₂, fs₁', fs₂', heq₁, heq₂, hv₁, hv₂⟩
  · refine alike_of_answer hsame (a := .done false) ?_ ?_
    · rw [hrun, heq₁]
      rfl
    · rw [hrun, heq₂]
      rfl
  · refine (alike_update_iff hsame (a := .done true) ?_ ?_ hv₁ hv₂).mpr
      (congrArg some (hfresh _ _))
    · rw [hrun, heq₁, succeeded, decide_eq_true (Int.natCast_nonneg i₁)]
    · rw [hrun, heq₂, succeeded, decide_eq_true (Int.natCast_nonneg i₂)]

/-- A symbolic link shows the owner that was left in its entry. -/
theorem alike_symlink_iff (h₁ : RamfsOk fs₁) (h₂ : RamfsOk fs₂) (hsame : shown fs₁ = shown fs₂)
    (target : CStr) (name : Option CStr) :
    Alike fs₁ fs₂ (.symlink target name) ↔ SameResidue fs₁ fs₂ (.symlink target name) := by
  show Alike fs₁ fs₂ (.symlink target name) ↔ ∀ i₁ i₂ : Nat,
    (ramfsSymlink fs₁ target name).2 = i₁ → (ramfsSymlink fs₂ target name).2 = i₂ →
      (fs₁ i₁).uid = (fs₂ i₂).uid ∧ (fs₁ i₁).gid = (fs₂ i₂).gid
  unfold ramfsSymlink
  rcases ramfsAdd_twin h₁ h₂ hsame name (fun f =>
      { f with
        symlinkTarget := target.take (ramfsMaxSymlinkTarget - 1)
        size := 0, isDir := false, isSymlink := true, mode := 0xA000 ||| 0x01FF, inUse := true })
      (fun _ => ⟨rfl, rfl⟩) with
    ⟨heq₁, heq₂⟩ | ⟨path, i₁, i₂, fs₁', fs₂', heq₁, heq₂, hv₁, hv₂⟩
  · refine iff_of_true ?_ fun i₁ i₂ hi₁ _ => ?_
    · refine alike_of_answer hsame (a := .done false) ?_ ?_
      · rw [FsOp.run, ramfsSymlink, heq₁]
        rfl
      · rw [FsOp.run, ramfsSymlink, heq₂]
        rfl
    · rw [heq₁] at hi₁
      dsimp only at hi₁
      omega
  · rw [heq₁, heq₂]
    have hiff : Alike fs₁ fs₂ (.symlink target name) ↔ _ :=
      alike_update_iff hsame (a := .done true)
        (by rw [FsOp.run, ramfsSymlink, heq₁, succeeded, decide_eq_true (Int.natCast_nonneg i₁)])
        (by rw [FsOp.run, ramfsSymlink, heq₂, succeeded, decide_eq_true (Int.natCast_nonneg i₂)])
        hv₁ hv₂
    rw [hiff, Option.some.injEq]
    constructor
    · intro heq j₁ j₂ hj₁ hj₂
      obtain rfl : i₁ = j₁ := Int.ofNat_inj.mp hj₁
      obtain rfl : i₂ = j₂ := Int.ofNat_inj.mp hj₂
      exact ⟨congrArg Shown.uid heq, congrArg Shown.gid heq⟩
    · intro howner
      obtain ⟨huid, hgid⟩ := howner i₁ i₂ rfl rfl
      simp only [RamfsFile.shown, huid, hgid]
      rfl

theorem alike_change (hsame : shown fs₁ = shown fs₂) (name : Option CStr)
    (change : RamfsFile → RamfsFile)
    (hkept : ∀ f, (change f).name = f.name ∧ (change f).inUse = f.inUse)
    (hshown : ∀ f g, f.shown = g.shown → (change f).shown = (change g).shown)
    (hrun : ∀ fs, op.run fs = some (succeeded (ramfsChange fs name change))) :
    Alike fs₁ fs₂ op := by
  have hfailed : (∀ fs, shown fs = shown fs₁ → ramfsChange fs name change = (fs, -1)) →
      Alike fs₁ fs₂ op := by
    intro hfail
    refine alike_of_answer hsame (a := .done false) ?_ ?_
    · rw [hrun, hfail fs₁ rfl]
      rfl
    · rw [hrun, hfail fs₂ hsame.symm]
      rfl
  cases hnorm : ramfsNormalize name with
  | none => exact hfailed fun fs _ => by rw [ramfsChange, hnorm]
  | some path =>
      by_cases hroot : path = ['/']
      · refine hfailed fun fs _ => ?_
        rw [ramfsChange, hnorm]
        exact if_pos hroot
      · rcases found_both hsame path with ⟨hn₁, -⟩ | ⟨i₁, i₂, hn₁, hn₂, heq⟩
        · refine hfailed fun fs hfs => ?_
          have hnone : ramfsFindName fs path = none := by
            rcases found_both hfs path with ⟨hn, -⟩ | ⟨i, j, -, hj, -⟩
            · exact hn
            · rw [hn₁] at hj
              simp at hj
          rw [ramfsChange, hnorm]
          dsimp only
          rw [if_neg hroot, hnone]
        · have hcall : ∀ {fs i}, ramfsFindName fs path = some i →
              op.run fs = some (Function.update fs i (change (fs i)), .done true) := by
            intro fs i hfind
            rw [hrun, ramfsChange, hnorm]
            dsimp only
            rw [if_neg hroot, hfind]
            rfl
          exact (alike_update_iff hsame (hcall hn₁) (hcall hn₂)
            (shown_change hn₁ (hkept _).1 (hkept _).2)
            (shown_change hn₂ (hkept _).1 (hkept _).2)).mpr (congrArg some (hshown _ _ heq))

theorem alike_unlink (h₁ : RamfsOk fs₁) (h₂ : RamfsOk fs₂) (hsame : shown fs₁ = shown fs₂)
    (name : Option CStr) : Alike fs₁ fs₂ (.unlink name) := by
  have hfailed : ramfsUnlink fs₁ name = (fs₁, -1) → ramfsUnlink fs₂ name = (fs₂, -1) →
      Alike fs₁ fs₂ (.unlink name) := by
    intro hf₁ hf₂
    refine alike_of_answer hsame (a := .done false) ?_ ?_
    · rw [FsOp.run, hf₁]
      rfl
    · rw [FsOp.run, hf₂]
      rfl
  cases hnorm : ramfsNormalize name with
  | none => exact hfailed (by rw [ramfsUnlink, hnorm]) (by rw [ramfsUnlink, hnorm])
  | some path =>
      obtain ⟨s, -, hs⟩ := Option.bind_eq_some_iff.mp hnorm
      obtain ⟨-, hlen⟩ := normalizePath_canonical hs
      have hcall : ∀ fs, ramfsUnlink fs name =
          if path = ['/'] then (fs, -1) else
          match ramfsFindName fs path with
          | none => (fs, -1)
          | some idx =>
              if (fs idx).isDir = true ∧ ramfsDirHasChildren fs path = true then (fs, -1) else
              (Function.update fs idx
                { fs idx with inUse := false, isDir := false, name := [], size := 0 }, 0) := by
        intro fs
        unfold ramfsUnlink
        exact hnorm ▸ rfl
      by_cases hroot : path = ['/']
      · exact hfailed (by rw [hcall, if_pos hroot]) (by rw [hcall, if_pos hroot])
      rcases found_both hsame path with ⟨hn₁, hn₂⟩ | ⟨i₁, i₂, hn₁, hn₂, heq⟩
      · exact hfailed (by rw [hcall, if_neg hroot, hn₁]) (by rw [hcall, if_neg hroot, hn₂])
      have hdir : (fs₁ i₁).isDir = (fs₂ i₂).isDir := congrArg Shown.isDir heq
      have hfull : ((fs₁ i₁).isDir = true ∧ ramfsDirHasChildren fs₁ path = true) ↔
          ((fs₂ i₂).isDir = true ∧ ramfsDirHasChildren fs₂ path = true) := by
        rw [hdir, ramfsDirHasChildren_twin hsame hlen]
      by_cases hfull₁ : (fs₁ i₁).isDir = true ∧ ramfsDirHasChildren fs₁ path = true
      · have hfull₂ := hfull.mp hfull₁
        refine hfailed ?_ ?_
        · rw [hcall, if_neg hroot, hn₁]
          exact if_pos hfull₁
        · rw [hcall, if_neg hroot, hn₂]
          exact if_pos hfull₂
      · have hrun : ∀ {fs i}, ramfsFindName fs path = some i →
            ¬ ((fs i).isDir = true ∧ ramfsDirHasChildren fs path = true) →
            FsOp.run fs (.unlink name) = some (Function.update fs i
              { fs i with inUse := false, isDir := false, name := [], size := 0 }, .done true) := by
          intro fs i hfind hempty
          rw [FsOp.run, hcall, if_neg hroot, hfind]
          dsimp only
          rw [if_neg hempty]
          rfl
        exact (alike_update_iff hsame (hrun hn₁ hfull₁) (hrun hn₂ fun hf => hfull₁ (hfull.mpr hf))
          (shown_remove h₁.tree hn₁ rfl) (shown_remove h₂.tree hn₂ rfl)).mpr rfl

theorem ramfsStat_twin (hsame : shown fs₁ = shown fs₂) (path : Option CStr) :
    ramfsStat fs₁ path = ramfsStat fs₂ path := by
  unfold ramfsStat
  cases ramfsNormalize path with
  | none => rfl
  | some norm =>
      dsimp only
      split_ifs with hroot
      · rfl
      · rcases found_both hsame norm with ⟨hn₁, hn₂⟩ | ⟨i₁, i₂, hn₁, hn₂, heq⟩
        · rw [hn₁, hn₂]
          rfl
        · obtain ⟨-, -, hname₁⟩ := ramfsFindName_some hn₁
          obtain ⟨-, -, hname₂⟩ := ramfsFindName_some hn₂
          rw [hn₁, hn₂, Option.map_some, Option.map_some, hname₁, hname₂]
          obtain ⟨⟨hdir, hlink⟩, hsize, hmode, huid, hgid⟩ := shown_fields heq
          rw [hsize, hmode, huid, hgid, hdir, hlink]

theorem ramfsReadlink_twin (hsame : shown fs₁ = shown fs₂) (path : Option CStr) (bufsize : Nat) :
    ramfsReadlink fs₁ path bufsize = ramfsReadlink fs₂ path bufsize := by
  unfold ramfsReadlink
  split_ifs
  · rfl
  · cases ramfsNormalize path with
    | none => rfl
    | some norm =>
        dsimp only
        rcases found_both hsame norm with ⟨hn₁, hn₂⟩ | ⟨i₁, i₂, hn₁, hn₂, heq⟩
        · rw [hn₁, hn₂]
        · rw [hn₁, hn₂]
          have hlink : (fs₁ i₁).isSymlink = (fs₂ i₂).isSymlink := congrArg Shown.isSymlink heq
          have htarget : (fs₁ i₁).shown.target = (fs₂ i₂).shown.target :=
            congrArg Shown.target heq
          dsimp only
          unfold RamfsFile.shown at htarget
          dsimp only at htarget
          rw [hlink] at htarget ⊢
          split_ifs at htarget ⊢ with hsym
          · rw [htarget]
          · rfl

theorem ramfsOpen_twin (hsame : shown fs₁ = shown fs₂) (path : Option CStr) :
    (ramfsOpen fs₁ path = none ∧ ramfsOpen fs₂ path = none) ∨
      ∃ norm i₁ i₂, ramfsOpen fs₁ path = some i₁ ∧ ramfsOpen fs₂ path = some i₂ ∧
        ramfsFindName fs₁ norm = some i₁ ∧ ramfsFindName fs₂ norm = some i₂ ∧
        (fs₁ i₁).shown = (fs₂ i₂).shown := by
  unfold ramfsOpen
  cases ramfsNormalize path with
  | none => exact .inl ⟨rfl, rfl⟩
  | some norm =>
      dsimp only
      split_ifs with hroot
      · exact .inl ⟨rfl, rfl⟩
      · rcases found_both hsame norm with ⟨hn₁, hn₂⟩ | ⟨i₁, i₂, hn₁, hn₂, heq⟩
        · exact .inl ⟨hn₁, hn₂⟩
        · exact .inr ⟨norm, i₁, i₂, hn₁, hn₂, hn₁, hn₂, heq⟩

theorem alike_read (hsame : shown fs₁ = shown fs₂) (path : Option CStr) (off len : Nat) :
    Alike fs₁ fs₂ (.read path off len) := by
  rcases ramfsOpen_twin hsame path with ⟨ho₁, ho₂⟩ | ⟨norm, i₁, i₂, ho₁, ho₂, hn₁, hn₂, heq⟩
  · exact alike_of_answer hsame (by rw [FsOp.run, ho₁]) (by rw [FsOp.run, ho₂])
  · obtain ⟨hlt₁, huse₁, -⟩ := ramfsFindName_some hn₁
    obtain ⟨hlt₂, huse₂, -⟩ := ramfsFindName_some hn₂
    have hread : ramfsRead fs₁ i₁ off len = ramfsRead fs₂ i₂ off len := by
      have hdir : (fs₁ i₁).isDir = (fs₂ i₂).isDir := congrArg Shown.isDir heq
      have hbytes : (fs₁ i₁).content = (fs₂ i₂).content := congrArg Shown.bytes heq
      rw [ramfsRead_content hlt₁ huse₁, ramfsRead_content hlt₂ huse₂, hdir, hbytes]
    exact alike_of_answer hsame (by rw [FsOp.run, ho₁]) (by rw [FsOp.run, ho₂, hread])

/-- A write shows what was stored between the end of the file and its own bytes. -/
theorem alike_write_iff (h₁ : RamfsOk fs₁) (h₂ : RamfsOk fs₂) (hsame : shown fs₁ = shown fs₂)
    (path : Option CStr) (off : Nat) (buf : List UInt8) :
    Alike fs₁ fs₂ (.write path off buf) ↔ SameResidue fs₁ fs₂ (.write path off buf) := by
  show Alike fs₁ fs₂ (.write path off buf) ↔ ∀ i₁ i₂, ramfsOpen fs₁ path = some i₁ →
    ramfsOpen fs₂ path = some i₂ →
      (∃ fs' n, ramfsWrite fs₁ i₁ off buf = some (fs', n) ∧ 0 ≤ n) →
        ∀ o, (fs₁ i₁).size ≤ o → o < off → (fs₁ i₁).data o = (fs₂ i₂).data o
  rcases ramfsOpen_twin hsame path with ⟨ho₁, ho₂⟩ | ⟨norm, i₁, i₂, ho₁, ho₂, hn₁, hn₂, heq⟩
  · refine iff_of_true ?_ fun i₁ i₂ hi₁ => ?_
    · exact alike_of_answer hsame (by rw [FsOp.run, ho₁]) (by rw [FsOp.run, ho₂])
    · rw [ho₁] at hi₁
      simp at hi₁
  obtain ⟨hlt₁, huse₁, -⟩ := ramfsFindName_some hn₁
  obtain ⟨hlt₂, huse₂, -⟩ := ramfsFindName_some hn₂
  have hw₁ := h₁.write_eq hlt₁ huse₁ off buf
  have hw₂ := h₂.write_eq hlt₂ huse₂ off buf
  have hdir : (fs₁ i₁).isDir = (fs₂ i₂).isDir := congrArg Shown.isDir heq
  have hrun : ∀ {fs i}, ramfsOpen fs path = some i → FsOp.run fs (.write path off buf) =
      (ramfsWrite fs i off buf).map fun r => (r.1, .wrote r.2) := by
    intro fs i ho
    rw [FsOp.run, ho]
  -- The condition speaks of the two entries only.
  have hcond : (∀ j₁ j₂, ramfsOpen fs₁ path = some j₁ → ramfsOpen fs₂ path = some j₂ →
      (∃ fs' n, ramfsWrite fs₁ j₁ off buf = some (fs', n) ∧ 0 ≤ n) →
        ∀ o, (fs₁ j₁).size ≤ o → o < off → (fs₁ j₁).data o = (fs₂ j₂).data o) ↔
      ((∃ fs' n, ramfsWrite fs₁ i₁ off buf = some (fs', n) ∧ 0 ≤ n) →
        ∀ o, (fs₁ i₁).size ≤ o → o < off → (fs₁ i₁).data o = (fs₂ i₂).data o) := by
    rw [ho₁, ho₂]
    simp only [Option.some.injEq]
    constructor
    · intro h
      exact h i₁ i₂ rfl rfl
    · rintro h j₁ j₂ rfl rfl
      exact h
  rw [hcond]
  by_cases hbad : (fs₁ i₁).isDir = true ∨ ramfsFileCapacity ≤ off
  · rw [if_pos hbad] at hw₁
    rw [if_pos (hdir ▸ hbad)] at hw₂
    refine iff_of_true ?_ ?_
    · exact alike_of_answer hsame (by rw [hrun ho₁, hw₁]; rfl) (by rw [hrun ho₂, hw₂]; rfl)
    · rintro ⟨fs', n, hn, hpos⟩
      rw [hw₁] at hn
      obtain ⟨-, rfl⟩ := Prod.mk.inj (Option.some.inj hn)
      exact absurd hpos (by decide)
  rw [if_neg hbad] at hw₁
  rw [if_neg (hdir ▸ hbad)] at hw₂
  by_cases hfit : ramfsFileCapacity < off + toWrite off buf.length
  · rw [if_pos hfit] at hw₁ hw₂
    refine iff_of_true ?_ ?_
    · unfold Alike
      rw [hrun ho₁, hrun ho₂, hw₁, hw₂]
      trivial
    · rintro ⟨fs', n, hn, -⟩
      rw [hw₁] at hn
      simp at hn
  rw [if_neg hfit] at hw₁ hw₂
  have hwritten : ∃ fs' n, ramfsWrite fs₁ i₁ off buf = some (fs', n) ∧ 0 ≤ n :=
    ⟨_, _, hw₁, Int.natCast_nonneg _⟩
  rw [forall_prop_of_true hwritten]
  have hcall₁ : FsOp.run fs₁ (.write path off buf) =
      some (Function.update fs₁ i₁ ((fs₁ i₁).written off buf), .wrote (toWrite off buf.length)) := by
    rw [hrun ho₁, hw₁]
    rfl
  have hcall₂ : FsOp.run fs₂ (.write path off buf) =
      some (Function.update fs₂ i₂ ((fs₂ i₂).written off buf), .wrote (toWrite off buf.length)) := by
    rw [hrun ho₂, hw₂]
    rfl
  rw [alike_update_iff hsame hcall₁ hcall₂ (shown_change hn₁ rfl rfl)
    (shown_change hn₂ rfl rfl), Option.some.injEq]
  exact shown_written_iff heq off buf

/-- The exact condition, operation by operation. -/
theorem alike_iff (h₁ : RamfsOk fs₁) (h₂ : RamfsOk fs₂) (hsame : shown fs₁ = shown fs₂)
    (op : FsOp) : Alike fs₁ fs₂ op ↔ SameResidue fs₁ fs₂ op := by
  cases op with
  | symlink target path => exact alike_symlink_iff h₁ h₂ hsame target path
  | write path off buf => exact alike_write_iff h₁ h₂ hsame path off buf
  | mkdir path =>
      exact iff_of_true (alike_add h₁ h₂ hsame path
        (fun f => ramfsInitFilePerms { f with size := 0, isDir := true, inUse := true } true)
        (fun _ => ⟨rfl, rfl⟩) (fun _ _ => rfl) fun _ => rfl) trivial
  | create path =>
      exact iff_of_true (alike_add h₁ h₂ hsame path
        (fun f => ramfsInitFilePerms { f with size := 0, isDir := false, inUse := true } false)
        (fun _ => ⟨rfl, rfl⟩) (fun _ _ => rfl) fun _ => rfl) trivial
  | unlink path => exact iff_of_true (alike_unlink h₁ h₂ hsame path) trivial
  | chmod path mode =>
      refine iff_of_true (alike_change hsame path
        (fun f => { f with mode := (f.mode &&& 0xF000) ||| (mode &&& 0x0FFF) })
        (fun _ => ⟨rfl, rfl⟩) (fun f g hfg => ?_) fun _ => rfl) trivial
      obtain ⟨⟨hdir, hlink⟩, hsize, hmode, huid, hgid⟩ := shown_fields hfg
      have hbytes : f.shown.bytes = g.shown.bytes := congrArg Shown.bytes hfg
      have htarget : f.shown.target = g.shown.target := congrArg Shown.target hfg
      refine Shown.ext hdir hlink hsize ?_ huid hgid hbytes htarget
      simp [RamfsFile.shown, hmode]
  | chown path uid gid =>
      refine iff_of_true (alike_change hsame path (fun f => { f with uid := uid, gid := gid })
        (fun _ => ⟨rfl, rfl⟩) (fun f g hfg => ?_) fun _ => rfl) trivial
      obtain ⟨⟨hdir, hlink⟩, hsize, hmode, -, -⟩ := shown_fields hfg
      have hbytes : f.shown.bytes = g.shown.bytes := congrArg Shown.bytes hfg
      have htarget : f.shown.target = g.shown.target := congrArg Shown.target hfg
      exact Shown.ext hdir hlink hsize hmode rfl rfl hbytes htarget
  | stat path =>
      refine iff_of_true (alike_of_answer hsame rfl ?_) trivial
      rw [FsOp.run, ramfsStat_twin hsame]
  | readlink path bufsize =>
      refine iff_of_true (alike_of_answer hsame rfl ?_) trivial
      rw [FsOp.run, ramfsReadlink_twin hsame]
  | read path off len => exact iff_of_true (alike_read hsame path off len) trivial

end Alike

/-! ### Whole histories -/

/-- Two tables, with what the operations on them have answered. -/
structure Twins where
  (fs₁ fs₂ : Ramfs)
  (log₁ log₂ : List FsAnswer)

/-- The same operation on both. -/
def Twins.step (t : Twins) (op : FsOp) (t' : Twins) : Prop :=
  ∃ a₁ a₂, op.run t.fs₁ = some (t'.fs₁, a₁) ∧ op.run t.fs₂ = some (t'.fs₂, a₂) ∧
    t'.log₁ = t.log₁ ++ [a₁] ∧ t'.log₂ = t.log₂ ++ [a₂]

/-- Both tables are in order, show the same and have answered the same. -/
structure TwinsAgree (t : Twins) : Prop where
  left : RamfsOk t.fs₁
  right : RamfsOk t.fs₂
  shown : shown t.fs₁ = shown t.fs₂
  log : t.log₁ = t.log₂

theorem TwinsAgree.step {t t' : Twins} {op : FsOp} (h : TwinsAgree t)
    (hstep : Guarded (fun t op => SameResidue t.fs₁ t.fs₂ op) Twins.step t op t') :
    TwinsAgree t' := by
  obtain ⟨hresidue, a₁, a₂, hrun₁, hrun₂, hlog₁, hlog₂⟩ := hstep
  have halike := (alike_iff h.left h.right h.shown op).mpr hresidue
  unfold Alike at halike
  rw [hrun₁, hrun₂] at halike
  obtain ⟨hanswer, hshown⟩ := halike
  dsimp only at hanswer hshown
  refine ⟨h.left.run hrun₁, h.right.run hrun₂, hshown, ?_⟩
  rw [hlog₁, hlog₂, h.log, hanswer]

/--
**Only the owner of a symbolic link and the gap before a write tell what was there before.**  Two
histories that end with the same visible entries answer alike to all that follows, and show the
same afterwards, while what the operations uncover is the same in both; and the next operation is
alike exactly when this holds for it too.
-/
theorem ramfs_no_residue_iff (init₁ init₂ : Ramfs) {calls₁ calls₂ : List RamfsCall}
    {fs₁ fs₂ : Ramfs} (hhist₁ : Executes Ramfs.step (ramfsInit init₁) calls₁ fs₁)
    (hhist₂ : Executes Ramfs.step (ramfsInit init₂) calls₂ fs₂) (hsame : shown fs₁ = shown fs₂)
    {ops : List FsOp} {t : Twins}
    (hrun : Executes (Guarded (fun t op => SameResidue t.fs₁ t.fs₂ op) Twins.step)
      ⟨fs₁, fs₂, [], []⟩ ops t) :
    t.log₁ = t.log₂ ∧ shown t.fs₁ = shown t.fs₂ ∧
      ∀ op, Alike t.fs₁ t.fs₂ op ↔ SameResidue t.fs₁ t.fs₂ op := by
  have hok : ∀ {init calls fs}, Executes Ramfs.step (ramfsInit init) calls fs → RamfsOk fs :=
    fun hhist => hhist.invariant (fun _ _ _ h hstep => h.call hstep.choose_spec) (ramfsOk_init _)
  have hagree : TwinsAgree t :=
    hrun.invariant (fun _ _ _ h hstep => h.step hstep) ⟨hok hhist₁, hok hhist₂, hsame, rfl⟩
  exact ⟨hagree.log, hagree.shown, alike_iff hagree.left hagree.right hagree.shown⟩

/-- A table with nothing in use shows nothing. -/
theorem shown_empty {fs : Ramfs} (hempty : ∀ i, i < ramfsMaxFiles → (fs i).inUse = false) :
    shown fs = fun _ => none := by
  funext n
  rw [shown, Option.map_eq_none_iff]
  cases hfind : ramfsFindName fs n with
  | none => rfl
  | some i =>
      obtain ⟨hi, huse, -⟩ := ramfsFindName_some hfind
      rw [hempty i hi] at huse
      exact Bool.noConfusion huse

/-- The table after a file with an owner came and went. -/
def chownedRamfs : Ramfs :=
  (ramfsUnlink (ramfsChown (ramfsCreate (ramfsInit blankRamfs) (some "/a".toList)).1
    (some "/a".toList) 7 8).1 (some "/a".toList)).1

theorem chownedRamfs_run : Executes Ramfs.step (ramfsInit blankRamfs)
    [.create (some "/a".toList), .chown (some "/a".toList) 7 8, .unlink (some "/a".toList)]
    chownedRamfs :=
  .cons ⟨_, rfl⟩ (.cons ⟨_, rfl⟩ (.cons ⟨_, rfl⟩ (.nil _)))

theorem chownedRamfs_shown : shown (ramfsInit blankRamfs) = shown chownedRamfs := by
  have hgone : shown chownedRamfs = fun _ => none := shown_empty (by decide +kernel)
  rw [hgone, shown_empty fun _ _ => rfl]

/-- A directory made where a file with an owner was. -/
theorem ramfs_no_residue_mkdir :
    ∃ t, Executes (Guarded (fun t op => SameResidue t.fs₁ t.fs₂ op) Twins.step)
        ⟨ramfsInit blankRamfs, chownedRamfs, [], []⟩ [.mkdir (some "/d".toList)] t ∧
      shown t.fs₁ = shown t.fs₂ := by
  have hrun : Executes (Guarded (fun t op => SameResidue t.fs₁ t.fs₂ op) Twins.step)
      ⟨ramfsInit blankRamfs, chownedRamfs, [], []⟩ [.mkdir (some "/d".toList)] ⟨_, _, _, _⟩ :=
    .cons ⟨trivial, _, _, rfl, rfl, rfl, rfl⟩ (.nil _)
  exact ⟨_, hrun, (ramfs_no_residue_iff blankRamfs blankRamfs (.nil _) chownedRamfs_run
    chownedRamfs_shown hrun).2.1⟩

/-- A symbolic link belongs to the owner of the file that had its entry before. -/
theorem symlink_shows_old_owner :
    ∃ fs₁ fs₂, Executes Ramfs.step (ramfsInit blankRamfs) [] fs₁ ∧
      Executes Ramfs.step (ramfsInit blankRamfs) [.create (some "/a".toList),
        .chown (some "/a".toList) 7 8, .unlink (some "/a".toList)] fs₂ ∧
      shown fs₁ = shown fs₂ ∧
      ramfsStat (ramfsSymlink fs₁ "t".toList (some "/l".toList)).1 (some "/l".toList) ≠
        ramfsStat (ramfsSymlink fs₂ "t".toList (some "/l".toList)).1 (some "/l".toList) :=
  ⟨_, _, .nil _, chownedRamfs_run, chownedRamfs_shown, by decide +kernel⟩

end BrightS
