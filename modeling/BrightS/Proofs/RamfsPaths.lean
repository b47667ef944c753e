/-
Failures and spellings of paths in the RAM file system.

Every operation begins by normalising its path and looks at nothing else of it, and none
stores anything before its last check.  So a call that fails leaves the table alone
(`PathOp.failed_same`), and two spellings of one path are interchangeable
(`PathOp.congr`).
-/
import BrightS.Proofs.Ramfs

namespace BrightS

/-! ### Operations on a path -/

inductive PathOp where
  | mkdir
  | create
  | symlink (target : CStr)
  | unlink
  | chmod (mode : Nat)
  | chown (uid gid : Nat)
  | open
  | stat
  | readlink (bufsize : Nat)
  | getDirEntries (maxEntries : Nat)

/-- What the caller gets. -/
inductive PathAnswer where
  | ret (r : Int)
  | index (idx : Option Nat)
  | stat (st : Option RamfsStat)
  | target (buf : Option CStr)
  | names (out : Option (List CStr))

/-- The answer stands for a negative result. -/
def PathAnswer.Failed : PathAnswer → Prop
  | .ret r => r < 0
  | .index idx => idx = none
  | .stat st => st = none
  | .target buf => buf = none
  | .names out => out = none

def PathOp.run (fs : Ramfs) (path : Option CStr) : PathOp → Ramfs × PathAnswer
  | .mkdir => (ramfsMkdir fs path).map id .ret
  | .create => (ramfsCreate fs path).map id .ret
  | .symlink target => (ramfsSymlink fs target path).map id .ret
  | .unlink => (ramfsUnlink fs path).map id .ret
  | .chmod mode => (ramfsChmod fs path mode).map id .ret
  | .chown uid gid => (ramfsChown fs path uid gid).map id .ret
  | .open => (fs, .index (ramfsOpen fs path))
  | .stat => (fs, .stat (ramfsStat fs path))
  | .readlink bufsize => (fs, .target (ramfsReadlink fs path bufsize))
  | .getDirEntries maxEntries => (fs, .names (ramfsGetDirEntries fs path maxEntries))

/-! ### Failures -/

/-- A call that fails leaves the table and the storage as they were. -/
theorem PathOp.failed_same (fs : Ramfs) (path : Option CStr) (op : PathOp)
    (hfailed : (op.run fs path).2.Failed) : (op.run fs path).1 = fs := by
  have hadd : ∀ fill, (ramfsAdd fs path fill).2 < 0 → (ramfsAdd fs path fill).1 = fs := by
    intro fill hret
    rcases ramfsAdd_cases fs path fill with heq | ⟨_, idx, -, -, -, -, -, -, heq⟩
    · rw [heq]
    · rw [heq] at hret
      exact absurd hret (by simp)
  have hchange : ∀ change, (ramfsChange fs path change).2 < 0 →
      (ramfsChange fs path change).1 = fs := by
    intro change hret
    rcases ramfsChange_cases fs path change with heq | ⟨_, idx, -, -, -, heq⟩
    · rw [heq]
    · rw [heq] at hret
      exact absurd hret (by simp)
  cases op with
  | mkdir =>
      simp only [PathOp.run, Prod.map, PathAnswer.Failed, ramfsMkdir] at hfailed ⊢
      exact hadd _ hfailed
  | create =>
      simp only [PathOp.run, Prod.map, PathAnswer.Failed, ramfsCreate] at hfailed ⊢
      exact hadd _ hfailed
  | symlink target =>
      simp only [PathOp.run, Prod.map, PathAnswer.Failed, ramfsSymlink] at hfailed ⊢
      exact hadd _ hfailed
  | unlink =>
      simp only [PathOp.run, Prod.map, PathAnswer.Failed] at hfailed ⊢
      rcases ramfsUnlink_cases fs path with heq | ⟨_, idx, -, -, -, -, heq⟩
      · rw [heq]
        rfl
      · rw [heq] at hfailed
        exact absurd hfailed (by simp)
  | chmod mode =>
      simp only [PathOp.run, Prod.map, PathAnswer.Failed, ramfsChmod] at hfailed ⊢
      exact hchange _ hfailed
  | chown uid gid =>
      simp only [PathOp.run, Prod.map, PathAnswer.Failed, ramfsChown] at hfailed ⊢
      exact hchange _ hfailed
  | _ => rfl

/-! ### Spellings -/

/-- Nothing of the path counts but its normal form. -/
theorem PathOp.congr (fs : Ramfs) {p q : Option CStr} (hsame : ramfsNormalize p = ramfsNormalize q)
    (op : PathOp) : op.run fs p = op.run fs q := by
  have hadd : ∀ fill, ramfsAdd fs p fill = ramfsAdd fs q fill := by
    intro fill
    unfold ramfsAdd
    rw [hsame]
  have hchange : ∀ change, ramfsChange fs p change = ramfsChange fs q change := by
    intro change
    unfold ramfsChange
    rw [hsame]
  cases op with
  | mkdir => simp [PathOp.run, ramfsMkdir, hadd]
  | create => simp [PathOp.run, ramfsCreate, hadd]
  | symlink target => simp [PathOp.run, ramfsSymlink, hadd]
  | unlink => simp [PathOp.run, ramfsUnlink, hsame]
  | chmod mode => simp [PathOp.run, ramfsChmod, hchange]
  | chown uid gid => simp [PathOp.run, ramfsChown, hchange]
  | «open» => simp [PathOp.run, ramfsOpen, hsame]
  | stat => simp [PathOp.run, ramfsStat, hsame]
  | readlink bufsize => simp [PathOp.run, ramfsReadlink, hsame]
  | getDirEntries maxEntries => simp [PathOp.run, ramfsGetDirEntries, hsame]

/-- What can be opened is what can be asked about, except for the root. -/
theorem ramfsOpen_isSome_iff (fs : Ramfs) {path : Option CStr}
    (hroot : ramfsNormalize path ≠ some ['/']) :
    (ramfsOpen fs path).isSome ↔ (ramfsStat fs path).isSome := by
  unfold ramfsOpen ramfsStat
  cases hnorm : ramfsNormalize path with
  | none => rfl
  | some norm =>
      dsimp only
      have hne : norm ≠ ['/'] := fun heq => hroot (hnorm.trans (congrArg some heq))
      rw [if_neg hne, if_neg hne, Option.isSome_map]

/--
**Failures leave no trace, and spellings do not matter.**  Whatever the table holds, a call that
fails changes nothing, two paths with the same normal form have the same effect and the same
answer, and other paths than the root can be opened exactly when `stat` finds them.
-/
theorem ramfs_paths_congruent (fs : Ramfs) :
    (∀ op path, (PathOp.run fs path op).2.Failed → (op.run fs path).1 = fs) ∧
      (∀ op p q, ramfsNormalize p = ramfsNormalize q → PathOp.run fs p op = op.run fs q) ∧
      ∀ path, ramfsNormalize path ≠ some ['/'] →
        ((ramfsOpen fs path).isSome ↔ (ramfsStat fs path).isSome) :=
  ⟨fun op path => op.failed_same fs path, fun op _ _ hsame => op.congr fs hsame,
    fun _ => ramfsOpen_isSome_iff fs⟩

/-- Two spellings of a directory, a second creation that fails, and a look at the directory. -/
theorem ramfs_paths_congruent_usr :
    ∃ fs, fs = (PathOp.run (ramfsInit blankRamfs) (some "/usr".toList) .mkdir).1 ∧
      fs = (PathOp.run (ramfsInit blankRamfs) (some "//x/../usr/.".toList) .mkdir).1 ∧
      (PathOp.run fs (some "usr".toList) .create).1 = fs ∧
      (ramfsStat fs (some "/usr/".toList)).isSome := by
  refine ⟨_, rfl, ?_, ?_, ?_⟩
  · have hsame := (ramfs_paths_congruent (ramfsInit blankRamfs)).2.1 .mkdir (some "/usr".toList)
      (some "//x/../usr/.".toList) (by decide +kernel)
    rw [hsame]
  · have hfailed := (ramfs_paths_congruent
      (PathOp.run (ramfsInit blankRamfs) (some "/usr".toList) .mkdir).1).1
    refine hfailed .create (some "usr".toList) ?_
    show (ramfsCreate (ramfsMkdir (ramfsInit blankRamfs) (some "/usr".toList)).1
      (some "usr".toList)).2 < 0
    decide +kernel
  · have hopen := (ramfs_paths_congruent
      (PathOp.run (ramfsInit blankRamfs) (some "/usr".toList) .mkdir).1).2.2
    refine (hopen (some "/usr/".toList) (by decide +kernel)).mp ?_
    show (ramfsOpen (ramfsMkdir (ramfsInit blankRamfs) (some "/usr".toList)).1
      (some "/usr/".toList)).isSome = true
    decide +kernel

end BrightS
