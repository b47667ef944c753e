/-
Descriptors and the files behind them, over runs.

Several descriptors may lead to one file object: `dup`, `dup2` and fork copy the pointer.
The object carries no count of them, and `close`, `dup2` onto an open descriptor and exit
return it to the pool at once.  So the objects in use are those with a descriptor
(`FilesExact`) only as long as nobody closes a descriptor whose object has another one;
`FilesPrivate` says so for each call, and `files_exact_iff` that it is the exact condition.
-/
import BrightS.Lib.Handles
import BrightS.Lib.Runs
import BrightS.Kernel.Files
import BrightS.Proofs.Proc

namespace BrightS

open Handles Runs Words

/-! ### Runs -/

inductive FilesCall where
  | open (flags : Nat) (found : Option FoundInode)
  | close (fd : Nat)
  | dup (fd : Nat)
  | dup2 (fd1 fd2 : Nat)
  | fork (cloneCr3 kstackPage : Nat)
  | exit (pid : Nat) (exitCode : Int) (kernelCr3 : Nat)
  /-- Another process makes the next calls. -/
  | setCurrent (pid : Nat)

/-- The state after a call; nothing when the call is undefined. -/
def Files.next (s : Files) : FilesCall → Option Files
  | .open flags found => some (sysOpen s flags found).1
  | .close fd => some (sysClose s fd).1
  | .dup fd => some (sysDup s fd).1
  | .dup2 fd1 fd2 => (sysDup2 s fd1 fd2).map Prod.fst
  | .fork cloneCr3 kstackPage => some (filesFork s cloneCr3 kstackPage).1
  | .exit pid exitCode kernelCr3 => some (filesExit s pid exitCode kernelCr3).1
  | .setCurrent pid => some { s with procs := procSetCurrent s.procs pid }

def Files.step (s : Files) (c : FilesCall) (s' : Files) : Prop := s.next c = some s'

/-! ### Descriptors as handles -/

/-- The file behind descriptor `h.2` of the process in entry `h.1`. -/
def Files.refs (s : Files) (h : Nat × Nat) : Option Nat :=
  let f := (s.procs.table h.1).fdTable h.2
  if h.1 < procMax ∧ h.2 < procMaxFds ∧ (s.procs.table h.1).state ≠ .unused ∧ f ≠ 0 then some f
  else none

/-- The files in use. -/
def FilePool.live (p : FilePool) : Set Nat :=
  {f | f ≠ 0 ∧ f ≤ vfsFilePoolSize ∧ (p.filePool (f - 1)).inUse = true}

/-- The bitmap and the flags of the files agree. -/
def FilePool.Agrees (p : FilePool) : Prop :=
  ∀ k, k < vfsFilePoolSize → bitTest p.filePoolBitmap k = (p.filePool k).inUse

/-- A file is in use exactly when it has a descriptor. -/
structure FilesExact (s : Files) : Prop where
  exact : Exact s.refs s.pool.live
  agrees : s.pool.Agrees

/-- The descriptors a call is to close. -/
def closedFds (s : Files) : FilesCall → Set (Nat × Nat)
  | .close fd => {h | procGetCurrent s.procs = some h.1 ∧ toFd fd = h.2}
  | .dup2 fd1 fd2 => {h | procGetCurrent s.procs = some h.1 ∧ toFd fd2 = h.2 ∧
      vfs2FdGet (s.procs.table h.1).fdTable (toFd fd1) ≠ 0}
  | .exit pid _ _ => {h | pid ≠ 0 ∧ procScan s.procs pid = some h.1}
  | _ => ∅

/-- Every descriptor that was not closed still leads to its file, which is in use and has the
inode it had. -/
def KeepsOthers (s : Files) (c : FilesCall) (s' : Files) : Prop :=
  ∀ h f, s.refs h = some f → h ∉ closedFds s c →
    s'.refs h = some f ∧ f ∈ s'.pool.live ∧
      (s'.pool.filePool (f - 1)).inode = (s.pool.filePool (f - 1)).inode

/-- The call does what it should to descriptors and files. -/
def FilesRight (s : Files) (c : FilesCall) : Prop :=
  ∃ s', s.next c = some s' ∧ FilesExact s' ∧ KeepsOthers s c s'

/-- Nobody else uses the files of the descriptors that are closed, `dup2` has another and an
existing descriptor to write to, and a file that is opened finds a free descriptor. -/
def FilesPrivate (s : Files) : FilesCall → Prop
  | .open _ found => found ≠ none →
      (∃ k, k < vfsFilePoolSize ∧ bitTest s.pool.filePoolBitmap k = false) →
      ∀ idx, procGetCurrent s.procs = some idx →
        ∃ j, j < procMaxFds ∧ (s.procs.table idx).fdTable j = 0
  | .dup2 fd1 fd2 => Private s.refs (closedFds s (.dup2 fd1 fd2)) ∧
      ∀ idx, procGetCurrent s.procs = some idx →
        vfs2FdGet (s.procs.table idx).fdTable (toFd fd1) ≠ 0 →
        0 ≤ toFd fd2 ∧ toFd fd2 < procMaxFds ∧ toFd fd1 ≠ toFd fd2
  | c => Private s.refs (closedFds s c)

/-! ### The pool -/

theorem vfs2FileFree_spec {p : FilePool} (hp : p.Agrees) {f : Nat} (hne : f ≠ 0)
    (hf : f ≤ vfsFilePoolSize) :
    (vfs2FileFree p f).Agrees ∧
      (∀ k, ((vfs2FileFree p f).filePool k).inUse =
        ((p.filePool k).inUse && decide (k + 1 ≠ f))) ∧
      ∀ k, ((vfs2FileFree p f).filePool k).inode = (p.filePool k).inode := by
  have hsize : vfsFilePoolSize = 64 := rfl
  unfold vfs2FileFree
  rw [if_neg hne, if_pos (show f - 1 < vfsFilePoolSize by omega)]
  refine ⟨fun k hk => ?_, fun k => ?_, fun k => ?_⟩
  · dsimp only
    rw [bitTest_bitClear _ (by omega), hp k hk]
    by_cases heq : k = f - 1
    · rw [heq, Function.update_self]
      simp
    · rw [Function.update_of_ne heq]
      simp [heq]
  · dsimp only
    by_cases heq : k = f - 1
    · have hk : k + 1 = f := by omega
      rw [heq, Function.update_self, ← heq]
      simp [hk]
    · have hk : k + 1 ≠ f := by omega
      rw [Function.update_of_ne heq]
      simp [hk]
  · dsimp only
    by_cases heq : k = f - 1
    · rw [heq, Function.update_self]
    · rw [Function.update_of_ne heq]

/-- Closing frees the file, or does nothing when there is none. -/
theorem vfs2Close_spec {p : FilePool} (hp : p.Agrees) {f : Nat} (hf : f ≤ vfsFilePoolSize) :
    (vfs2Close p f).1.Agrees ∧
      (∀ k, ((vfs2Close p f).1.filePool k).inUse = ((p.filePool k).inUse && decide (k + 1 ≠ f))) ∧
      ∀ k, ((vfs2Close p f).1.filePool k).inode = (p.filePool k).inode := by
  unfold vfs2Close
  split
  · rename_i hskip
    refine ⟨hp, fun k => ?_, fun k => rfl⟩
    dsimp only
    by_cases hk : k + 1 = f
    · rcases hskip with hnull | hfree
      · omega
      · have hpred : f - 1 = k := by omega
        rw [hpred] at hfree
        simp [hfree]
    · simp [hk]
  · rename_i hopen
    exact vfs2FileFree_spec hp (fun h => hopen (.inl h)) hf

theorem closeRequested_spec : ∀ {requests : List ExitRequest} {p : FilePool}, p.Agrees →
    (∀ f, .closeFile f ∈ requests → f ≤ vfsFilePoolSize) →
    (closeRequested p requests).Agrees ∧
      (∀ k, ((closeRequested p requests).filePool k).inUse =
        ((p.filePool k).inUse && decide (.closeFile (k + 1) ∉ requests))) ∧
      ∀ k, ((closeRequested p requests).filePool k).inode = (p.filePool k).inode := by
  intro requests
  induction requests with
  | nil =>
      intro p hp _
      exact ⟨hp, fun k => by simp [closeRequested], fun k => rfl⟩
  | cons request rest ih =>
      intro p hp hf
      have hrest : ∀ f, .closeFile f ∈ rest → f ≤ vfsFilePoolSize :=
        fun f hmem => hf f (List.mem_cons_of_mem _ hmem)
      cases request with
      | closeFile f =>
          obtain ⟨hagree, huse, hino⟩ := vfs2Close_spec hp (hf f List.mem_cons_self)
          obtain ⟨hagree', huse', hino'⟩ := ih hagree hrest
          refine ⟨hagree', fun k => ?_, fun k => (hino' k).trans (hino k)⟩
          refine (huse' k).trans ?_
          rw [huse k, Bool.and_assoc]
          congr 1
          simp [not_or]
      | _ =>
          obtain ⟨hagree', huse', hino'⟩ := ih hp hrest
          exact ⟨hagree', fun k => (huse' k).trans (by simp), hino'⟩

/-- The two ways an allocation goes: nothing changes, or a free entry is given out. -/
theorem vfs2FileAlloc_cases {p : FilePool} (hp : p.Agrees) :
    ((∀ k, k < vfsFilePoolSize → bitTest p.filePoolBitmap k = true) ∧ vfs2FileAlloc p = (p, 0)) ∨
      ∃ k, k < vfsFilePoolSize ∧ bitTest p.filePoolBitmap k = false ∧
        (vfs2FileAlloc p).2 = k + 1 ∧ (vfs2FileAlloc p).1.Agrees ∧
        (vfs2FileAlloc p).1.filePool k =
          { inUse := true, pos := 0, flags := 0, inode := 0, fops := 0, privateData := 0 } ∧
        ∀ j, j ≠ k → (vfs2FileAlloc p).1.filePool j = p.filePool j := by
  have hsize : vfsFilePoolSize = 64 := rfl
  unfold vfs2FileAlloc
  cases hfree : (List.range vfsFilePoolSize).find? fun k => !bitTest p.filePoolBitmap k with
  | none =>
      refine .inl ⟨fun k hk => ?_, rfl⟩
      simpa using List.find?_eq_none.mp hfree k (List.mem_range.mpr hk)
  | some k =>
      have hk : k < vfsFilePoolSize := List.mem_range.mp (List.mem_of_find?_eq_some hfree)
      refine .inr ⟨k, hk, by simpa using List.find?_some hfree, rfl, ?_, ?_, ?_⟩
      · intro j hj
        dsimp only
        rw [bitTest_bitSet _ (by omega)]
        by_cases heq : j = k
        · rw [heq, Function.update_self]
          simp
        · rw [Function.update_of_ne heq, hp j hj]
          simp [heq]
      · exact Function.update_self ..
      · intro j hj
        exact Function.update_of_ne hj ..

/-- The two ways opening goes: nothing changes, or a free entry of the pool is filled. -/
theorem vfs2Open_cases {p : FilePool} (hp : p.Agrees) (flags : Nat) (found : Option FoundInode) :
    ((found = none ∨ ∀ k, k < vfsFilePoolSize → bitTest p.filePoolBitmap k = true) ∧
        vfs2Open p flags found = (p, 0)) ∨
      ∃ k, k < vfsFilePoolSize ∧ found ≠ none ∧ bitTest p.filePoolBitmap k = false ∧
        (p.filePool k).inUse = false ∧ (vfs2Open p flags found).2 = k + 1 ∧
        (vfs2Open p flags found).1.Agrees ∧
        ((vfs2Open p flags found).1.filePool k).inUse = true ∧
        ∀ j, j ≠ k → (vfs2Open p flags found).1.filePool j = p.filePool j := by
  cases found with
  | none => exact .inl ⟨.inl rfl, rfl⟩
  | some ino =>
      unfold vfs2Open
      rcases vfs2FileAlloc_cases hp with ⟨hfull, heq⟩ | ⟨k, hk, hbit, hret, hagrees, hnew, hother⟩
      · exact .inl ⟨.inr hfull, by simp [heq]⟩
      · generalize vfs2FileAlloc p = r at hret hagrees hnew hother ⊢
        obtain ⟨q, f⟩ := r
        obtain rfl : f = k + 1 := hret
        have huse : (q.filePool k).inUse = true := congrArg VfsFile.inUse hnew
        dsimp only
        rw [if_neg (Nat.succ_ne_zero k), Nat.add_sub_cancel]
        refine .inr ⟨k, hk, by simp, hbit, (hp k hk).symm.trans hbit, rfl, ?_, ?_, ?_⟩
        · intro j hj
          refine (hagrees j hj).trans ?_
          dsimp only
          by_cases heq : j = k
          · rw [heq, Function.update_self]
          · rw [Function.update_of_ne heq]
        · dsimp only
          rw [Function.update_self]
          exact huse
        · intro j hj
          exact (Function.update_of_ne hj ..).trans (hother j hj)

theorem vfs2FileAlloc_full {p : FilePool} :
    (vfs2FileAlloc p).2 = 0 ↔ ∀ k, k < vfsFilePoolSize → bitTest p.filePoolBitmap k = true := by
  unfold vfs2FileAlloc
  cases hfree : (List.range vfsFilePoolSize).find? fun k => !bitTest p.filePoolBitmap k with
  | none =>
      refine iff_of_true rfl fun k hk => ?_
      simpa using List.find?_eq_none.mp hfree k (List.mem_range.mpr hk)
  | some k =>
      refine iff_of_false (Nat.succ_ne_zero k) fun hfull => ?_
      have hbit := List.find?_some hfree
      rw [hfull k (List.mem_range.mp (List.mem_of_find?_eq_some hfree))] at hbit
      exact absurd hbit (by simp)

theorem mem_live_iff {p : FilePool} {f : Nat} :
    f ∈ p.live ↔ f ≠ 0 ∧ f ≤ vfsFilePoolSize ∧ (p.filePool (f - 1)).inUse = true := Iff.rfl

/-! ### Descriptors -/

/-- A number of the table is not changed by the cast. -/
theorem toFd_small {j : Nat} (hj : j < procMaxFds) : toFd j = j := by
  have hmax : procMaxFds = 32 := rfl
  unfold toFd
  rw [BitVec.toInt_eq_toNat_of_lt, BitVec.toNat_ofNat]
  · omega
  · rw [BitVec.toNat_ofNat]
    omega

section Descriptors

variable {s : Files} {h : Nat × Nat} {f idx j : Nat}

theorem refs_eq_some : s.refs h = some f ↔
    h.1 < procMax ∧ h.2 < procMaxFds ∧ (s.procs.table h.1).state ≠ .unused ∧
      (s.procs.table h.1).fdTable h.2 = f ∧ f ≠ 0 := by
  unfold Files.refs
  dsimp only
  split
  · rename_i hopen
    obtain ⟨hi, hj, hlive, hne⟩ := hopen
    constructor
    · intro heq
      have heq := Option.some.inj heq
      exact ⟨hi, hj, hlive, heq, heq ▸ hne⟩
    · rintro ⟨_, _, _, heq, _⟩
      rw [heq]
  · rename_i hclosed
    constructor
    · intro heq
      exact absurd heq (by simp)
    · rintro ⟨hi, hj, hlive, heq, hne⟩
      exact absurd ⟨hi, hj, hlive, heq ▸ hne⟩ hclosed

theorem refs_congr {s' : Files} (hproc : s'.procs.table h.1 = s.procs.table h.1) :
    s'.refs h = s.refs h := by
  unfold Files.refs
  rw [hproc]

@[simp] theorem setFd_pool : (s.setFd idx j f).pool = s.pool := rfl

@[simp] theorem setFd_state (i : Nat) :
    ((s.setFd idx j f).procs.table i).state = (s.procs.table i).state := by
  by_cases hi : i = idx
  · subst hi
    simp [Files.setFd, ProcTable.put]
  · simp [Files.setFd, ProcTable.put, hi]

@[simp] theorem procGetCurrent_setFd :
    procGetCurrent (s.setFd idx j f).procs = procGetCurrent s.procs := by
  have hput : ∀ i, ((s.setFd idx j f).procs.table i).pid = (s.procs.table i).pid := by
    intro i
    by_cases hi : i = idx
    · subst hi
      simp [Files.setFd, ProcTable.put]
    · simp [Files.setFd, ProcTable.put, hi]
  unfold procGetCurrent procGetByPid
  simp only [hput, setFd_state]
  rfl

theorem setFd_fdTable_self : ((s.setFd idx j f).procs.table idx).fdTable j = f := by
  simp [Files.setFd, ProcTable.put]

theorem setFd_fdTable_other (hne : h ≠ (idx, j)) :
    ((s.setFd idx j f).procs.table h.1).fdTable h.2 = (s.procs.table h.1).fdTable h.2 := by
  by_cases hi : h.1 = idx
  · have hj : h.2 ≠ j := fun hj => hne (Prod.ext hi hj)
    simp [Files.setFd, ProcTable.put, hi, hj]
  · simp [Files.setFd, ProcTable.put, hi]

theorem setFd_refs_self (hidx : idx < procMax) (hlive : (s.procs.table idx).state ≠ .unused)
    (hj : j < procMaxFds) (hf : f ≠ 0) : (s.setFd idx j f).refs (idx, j) = some f :=
  refs_eq_some.mpr ⟨hidx, hj, by rwa [setFd_state], setFd_fdTable_self, hf⟩

theorem setFd_refs_null : (s.setFd idx j 0).refs (idx, j) = none := by
  unfold Files.refs
  dsimp only
  rw [if_neg]
  rintro ⟨_, _, _, hne⟩
  exact hne setFd_fdTable_self

theorem setFd_refs_other (hne : h ≠ (idx, j)) : (s.setFd idx j f).refs h = s.refs h := by
  unfold Files.refs
  simp only [setFd_state, setFd_fdTable_other hne]

/-- Writing a free descriptor leaves the open ones alone. -/
theorem setFd_refs_keep {g : Nat} (hfree : s.refs (idx, j) = none) (hh : s.refs h = some g) :
    (s.setFd idx j f).refs h = some g := by
  have hne : h ≠ (idx, j) := by
    intro heq
    rw [heq, hfree] at hh
    exact absurd hh (by simp)
  rw [setFd_refs_other hne]
  exact hh

theorem fdFree_spec {table : Nat → Nat} (hfree : fdFree table = some j) :
    j < procMaxFds ∧ table j = 0 :=
  ⟨List.mem_range.mp (List.mem_of_find?_eq_some hfree), by simpa using List.find?_some hfree⟩

theorem fdFree_eq_none {table : Nat → Nat} :
    fdFree table = none ↔ ∀ j, j < procMaxFds → table j ≠ 0 := by
  simp [fdFree]

/-- A descriptor number that leads somewhere is one of the table. -/
theorem vfs2FdGet_ne_zero {table : Nat → Nat} {fd : Int} (hf : vfs2FdGet table fd ≠ 0) :
    ∃ j : Nat, fd = j ∧ j < procMaxFds ∧ vfs2FdGet table fd = table j := by
  unfold vfs2FdGet at hf ⊢
  split at hf
  · exact absurd rfl hf
  · rename_i hrange
    refine ⟨fd.toNat, by omega, by omega, ?_⟩
    rw [if_neg hrange]

end Descriptors

/-! ### One call -/

/-- Descriptors lead to files that are in use. -/
structure FilesSound (s : Files) : Prop where
  sound : Sound s.refs s.pool.live
  agrees : s.pool.Agrees

theorem FilesExact.filesSound {s : Files} (hs : FilesExact s) : FilesSound s :=
  ⟨hs.exact.sound, hs.agrees⟩

/-- What a call can do to descriptors and files, with what that says about `FilesPrivate`. -/
inductive FilesEffect (s : Files) (c : FilesCall) : Option Files → Prop where
  /-- Nothing new is in use; there may be new descriptors of open files. -/
  | kept (s' : Files) (hkeep : ∀ h f, s.refs h = some f → s'.refs h = some f)
      (hnew : ∀ h f, s'.refs h = some f → ∃ h', s.refs h' = some f)
      (hlive : s'.pool.live = s.pool.live) (hagrees : s'.pool.Agrees)
      (hino : ∀ h f, s.refs h = some f →
        (s'.pool.filePool (f - 1)).inode = (s.pool.filePool (f - 1)).inode)
      (hright : FilesPrivate s c) : FilesEffect s c (some s')
  /-- Descriptors go, and the files behind them. -/
  | dropped (s' : Files) (hdrop : Drops s.refs (closedFds s c) s'.refs)
      (hlive : s'.pool.live = s.pool.live \ objects s.refs (closedFds s c))
      (hagrees : s'.pool.Agrees)
      (hino : ∀ k, (s'.pool.filePool k).inode = (s.pool.filePool k).inode)
      (hright : FilesPrivate s c ↔ Private s.refs (closedFds s c)) : FilesEffect s c (some s')
  /-- Descriptor `h₂` gives up its file and gets that of `h₁`. -/
  | moved (s' : Files) (h₁ h₂ : Nat × Nat) (f : Nat) (hclosed : closedFds s c = {h₂})
      (hfrom : s.refs h₁ = some f) (hself : s'.refs h₂ = some f)
      (hother : ∀ h, h ≠ h₂ → s'.refs h = s.refs h)
      (hlive : s'.pool.live = s.pool.live \ objects s.refs {h₂}) (hagrees : s'.pool.Agrees)
      (hino : ∀ k, (s'.pool.filePool k).inode = (s.pool.filePool k).inode)
      (hright : FilesPrivate s c ↔ Private s.refs {h₂} ∧ h₁ ≠ h₂) : FilesEffect s c (some s')
  /-- A new file and its descriptor. -/
  | opened (s' : Files) (h : Nat × Nat) (f : Nat) (hfree : s.refs h = none)
      (hself : s'.refs h = some f) (hother : ∀ h', h' ≠ h → s'.refs h' = s.refs h')
      (hlive : s'.pool.live = insert f s.pool.live) (hagrees : s'.pool.Agrees)
      (hino : ∀ h f, s.refs h = some f →
        (s'.pool.filePool (f - 1)).inode = (s.pool.filePool (f - 1)).inode)
      (hright : FilesPrivate s c) : FilesEffect s c (some s')
  /-- A new file that stays without a descriptor. -/
  | leaked (s' : Files) (f : Nat) (hopen : ∃ flags found, c = .open flags found)
      (hrefs : s'.refs = s.refs) (hnew : f ∉ s.pool.live)
      (hlive : s'.pool.live = insert f s.pool.live) (hagrees : s'.pool.Agrees)
      (hwrong : ¬ FilesPrivate s c) : FilesEffect s c (some s')
  /-- A write outside the descriptor table. -/
  | outside (hwrong : ¬ FilesPrivate s c) : FilesEffect s c none

section Calls

variable {s s' : Files} {c : FilesCall}

theorem objects_singleton {refs : Nat × Nat → Option Nat} {h : Nat × Nat} {f : Nat}
    (hh : refs h = some f) : objects refs {h} = {f} := by
  ext o
  simp only [objects, Set.mem_singleton_iff, exists_eq_left, Set.mem_ofPred_eq, hh,
    Option.some.injEq]
  exact eq_comm

theorem live_close {p : FilePool} (hp : p.Agrees) {f : Nat} (hf : f ≤ vfsFilePoolSize) :
    (vfs2Close p f).1.live = p.live \ {f} := by
  obtain ⟨-, huse, -⟩ := vfs2Close_spec hp hf
  ext x
  simp only [Set.mem_sdiff, mem_live_iff, Set.mem_singleton_iff, huse, Bool.and_eq_true,
    decide_eq_true_eq]
  constructor
  · rintro ⟨hne, hle, hlive, hnot⟩
    exact ⟨⟨hne, hle, hlive⟩, by omega⟩
  · rintro ⟨⟨hne, hle, hlive⟩, hnot⟩
    exact ⟨hne, hle, hlive, by omega⟩

theorem private_of_no_objects {refs : Nat × Nat → Option Nat} {D : Set (Nat × Nat)}
    (hD : ∀ h ∈ D, refs h = none) : Private refs D := by
  intro h o _ hobj
  obtain ⟨h', hD', hh'⟩ := hobj
  rw [hD h' hD'] at hh'
  exact absurd hh' (by simp)

theorem private_empty {refs : Nat × Nat → Option Nat} : Private refs ∅ :=
  private_of_no_objects fun h hh => absurd hh (Set.notMem_empty h)

theorem refs_of_fdTable_zero {idx j : Nat} (hfd : (s.procs.table idx).fdTable j = 0) :
    s.refs (idx, j) = none := by
  unfold Files.refs
  dsimp only
  rw [if_neg]
  rintro ⟨_, _, _, hne⟩
  exact hne hfd

theorem FilesSound.le_pool (hs : FilesSound s) {h : Nat × Nat} {f : Nat} (hh : s.refs h = some f) :
    f ≤ vfsFilePoolSize := (hs.sound h f hh).2.1

/-- A call that changes nothing. -/
theorem FilesSound.same (hs : FilesSound s) (hright : FilesPrivate s c) :
    FilesEffect s c (some s) :=
  .kept s (fun _ _ hh => hh) (fun h _ hh => ⟨h, hh⟩) rfl hs.agrees (fun _ _ _ => rfl) hright

theorem FilesSound.dup (hs : FilesSound s) (fd : Nat) :
    FilesEffect s (.dup fd) (s.next (.dup fd)) := by
  have hright : FilesPrivate s (.dup fd) := private_empty
  have hcall : s.next (.dup fd) = some (sysDup s fd).1 := rfl
  rw [hcall]
  unfold sysDup
  cases hcur : procGetCurrent s.procs with
  | none => exact hs.same hright
  | some idx =>
      dsimp only
      obtain ⟨hidx, hlive⟩ := procGetCurrent_filled hcur
      split
      · exact hs.same hright
      · rename_i hf
        obtain ⟨k, -, hk, hget⟩ := vfs2FdGet_ne_zero hf
        cases hfree : fdFree (s.procs.table idx).fdTable with
        | none => exact hs.same hright
        | some j =>
            dsimp only
            obtain ⟨hj, hzero⟩ := fdFree_spec hfree
            have hnone := refs_of_fdTable_zero hzero
            have hh : s.refs (idx, k) = some (vfs2FdGet (s.procs.table idx).fdTable (toFd fd)) :=
              refs_eq_some.mpr ⟨hidx, hk, hlive, hget.symm, hf⟩
            refine .kept _ (fun h f hh' => setFd_refs_keep hnone hh') (fun h o hh' => ?_) rfl
              hs.agrees (fun _ _ _ => rfl) hright
            by_cases heq : h = (idx, j)
            · rw [heq, setFd_refs_self hidx hlive hj hf] at hh'
              exact ⟨(idx, k), hh.trans hh'⟩
            · rw [setFd_refs_other heq] at hh'
              exact ⟨h, hh'⟩

/-- The state after closing one descriptor of the current process. -/
def Files.closeFd (s : Files) (idx j : Nat) : Files :=
  ({ s with pool := (vfs2Close s.pool ((s.procs.table idx).fdTable j)).1 } : Files).setFd idx j 0

theorem closeFd_drops (idx j : Nat) : Drops s.refs {(idx, j)} (s.closeFd idx j).refs := by
  constructor
  · intro h hne
    exact setFd_refs_other hne
  · intro h hh
    rw [Set.mem_singleton_iff.mp hh]
    exact setFd_refs_null

/-- What lies behind a descriptor that is closed leaves the pool. -/
theorem FilesSound.closeFd_pool (hs : FilesSound s) {idx j : Nat} (hidx : idx < procMax)
    (hlive : (s.procs.table idx).state ≠ .unused) (hj : j < procMaxFds) :
    (s.closeFd idx j).pool.Agrees ∧
      (s.closeFd idx j).pool.live = s.pool.live \ objects s.refs {(idx, j)} ∧
      ∀ k, ((s.closeFd idx j).pool.filePool k).inode = (s.pool.filePool k).inode := by
  by_cases hzero : (s.procs.table idx).fdTable j = 0
  · have hsame : (s.closeFd idx j).pool = s.pool := by simp [Files.closeFd, hzero, vfs2Close]
    have hobj : objects s.refs {(idx, j)} = ∅ := by
      ext o
      simp [objects, refs_of_fdTable_zero hzero]
    rw [hsame, hobj, Set.sdiff_empty]
    exact ⟨hs.agrees, rfl, fun k => rfl⟩
  · have hh : s.refs (idx, j) = some ((s.procs.table idx).fdTable j) :=
      refs_eq_some.mpr ⟨hidx, hj, hlive, rfl, hzero⟩
    obtain ⟨hagrees, -, hino⟩ := vfs2Close_spec hs.agrees (hs.le_pool hh)
    rw [objects_singleton hh]
    exact ⟨hagrees, live_close hs.agrees (hs.le_pool hh), hino⟩

theorem FilesSound.close (hs : FilesSound s) (fd : Nat) :
    FilesEffect s (.close fd) (s.next (.close fd)) := by
  have hcall : s.next (.close fd) = some (sysClose s fd).1 := rfl
  unfold sysClose at hcall
  cases hcur : procGetCurrent s.procs with
  | none =>
      rw [hcur] at hcall
      rw [hcall]
      refine hs.same (private_of_no_objects fun h hh => ?_)
      exact absurd (hcur.symm.trans hh.1) (by simp)
  | some idx =>
      rw [hcur] at hcall
      dsimp only at hcall
      obtain ⟨hidx, hlive⟩ := procGetCurrent_filled hcur
      split at hcall
      · rename_i hnull
        rw [hcall]
        refine hs.same (private_of_no_objects fun h hh => ?_)
        obtain ⟨hcur', hfd⟩ := hh
        have heq : h.1 = idx := Option.some.inj (hcur'.symm.trans hcur)
        cases hh : s.refs h with
        | none => rfl
        | some f =>
            obtain ⟨-, hj, -, hf, hne⟩ := refs_eq_some.mp hh
            rw [hfd, vfs2FdGet, if_neg (by omega), Int.toNat_natCast, ← heq, hf] at hnull
            exact absurd hnull hne
      · rename_i hf
        obtain ⟨j, hfd, hj, hget⟩ := vfs2FdGet_ne_zero hf
        have hclosed : closedFds s (.close fd) = {(idx, j)} := by
          ext h
          simp only [closedFds, Set.mem_ofPred_eq, Set.mem_singleton_iff, hcur, hfd,
            Option.some.injEq, Nat.cast_inj, Prod.ext_iff]
          exact and_congr eq_comm eq_comm
        have hafter : s.next (.close fd) = some (s.closeFd idx j) := by
          rw [hcall, hget, hfd, Int.toNat_natCast]
          rfl
        rw [hafter]
        obtain ⟨hagrees, hlive', hino⟩ := hs.closeFd_pool hidx hlive hj
        rw [← hclosed] at hlive'
        refine .dropped _ ?_ hlive' hagrees hino Iff.rfl
        rw [hclosed]
        exact closeFd_drops idx j

theorem closeFile_mem_exitRequests {p : ProcInfo} {kernelCr3 f : Nat} :
    .closeFile f ∈ exitRequests p kernelCr3 ↔ ∃ j, j < procMaxFds ∧ p.fdTable j = f ∧ f ≠ 0 := by
  unfold exitRequests
  simp only [List.mem_append, List.mem_map, List.mem_filter, List.mem_range]
  aesop

theorem FilesSound.exit (hs : FilesSound s) (pid : Nat) (exitCode : Int) (kernelCr3 : Nat) :
    FilesEffect s (.exit pid exitCode kernelCr3) (s.next (.exit pid exitCode kernelCr3)) := by
  have hcall : s.next (.exit pid exitCode kernelCr3) =
      some (filesExit s pid exitCode kernelCr3).1 := rfl
  unfold filesExit procExit at hcall
  by_cases hpid : pid = 0
  · rw [if_pos hpid] at hcall
    rw [hcall]
    exact hs.same (private_of_no_objects fun h hh => absurd hpid hh.1)
  · rw [if_neg hpid] at hcall
    cases hscan : procScan s.procs pid with
    | none =>
        rw [hscan] at hcall
        rw [hcall]
        refine hs.same (private_of_no_objects fun h hh => ?_)
        exact absurd (hscan.symm.trans hh.2) (by simp)
    | some i =>
        rw [hscan] at hcall
        dsimp only at hcall
        have hfound := List.find?_some hscan
        simp only [Bool.and_eq_true, bne_iff_ne] at hfound
        have hi : i < procMax := List.mem_range.mp (List.mem_of_find?_eq_some hscan)
        have hclosed : ∀ h : Nat × Nat,
            h ∈ closedFds s (.exit pid exitCode kernelCr3) ↔ h.1 = i := by
          intro h
          simp only [closedFds, Set.mem_ofPred_eq, hscan, Option.some.injEq]
          exact ⟨fun hh => hh.2.symm, fun hh => ⟨hpid, hh.symm⟩⟩
        -- The files that are closed are those behind the descriptors of the entry.
        have hreq : ∀ f, .closeFile f ∈ exitRequests (s.procs.table i) kernelCr3 ↔
            f ∈ objects s.refs (closedFds s (.exit pid exitCode kernelCr3)) := by
          intro f
          rw [closeFile_mem_exitRequests]
          constructor
          · rintro ⟨j, hj, hf, hne⟩
            exact ⟨(i, j), (hclosed _).mpr rfl,
              refs_eq_some.mpr ⟨hi, hj, hfound.2, hf, hne⟩⟩
          · rintro ⟨h, hh, hf⟩
            obtain ⟨-, hj, -, hfd, hne⟩ := refs_eq_some.mp hf
            rw [(hclosed h).mp hh] at hfd
            exact ⟨h.2, hj, hfd, hne⟩
        have hle : ∀ f, .closeFile f ∈ exitRequests (s.procs.table i) kernelCr3 →
            f ≤ vfsFilePoolSize := by
          intro f hf
          obtain ⟨h, -, hh⟩ := (hreq f).mp hf
          exact hs.le_pool hh
        obtain ⟨hagrees, huse, hino⟩ := closeRequested_spec hs.agrees hle
        rw [hcall]
        refine .dropped _ ⟨fun h hh => ?_, fun h hh => ?_⟩ ?_ hagrees hino Iff.rfl
        · exact refs_congr (Function.update_of_ne (fun heq => hh ((hclosed h).mpr heq)) _ _)
        · obtain ⟨i', j⟩ := h
          apply refs_of_fdTable_zero
          have heq : i' = i := (hclosed _).mp hh
          simp [ProcTable.put, heq]
        · ext f
          simp only [Set.mem_sdiff, mem_live_iff, huse, Bool.and_eq_true, decide_eq_true_eq,
            ← hreq]
          constructor
          · rintro ⟨hne, hlt, hlive, hnot⟩
            rw [Nat.sub_add_cancel (by omega)] at hnot
            exact ⟨⟨hne, hlt, hlive⟩, hnot⟩
          · rintro ⟨⟨hne, hlt, hlive⟩, hnot⟩
            refine ⟨hne, hlt, hlive, ?_⟩
            rw [Nat.sub_add_cancel (by omega)]
            exact hnot

/-- `dup2` onto an existing descriptor closes that one and shares the file. -/
theorem sysDup2_eq {idx j₁ j₂ fd1 fd2 : Nat} (hcur : procGetCurrent s.procs = some idx)
    (hfd1 : toFd fd1 = j₁) (hj₁ : j₁ < procMaxFds)
    (hf : (s.procs.table idx).fdTable j₁ ≠ 0) (hfd2 : toFd fd2 = j₂) (hj₂ : j₂ < procMaxFds) :
    sysDup2 s fd1 fd2 =
      some ((s.closeFd idx j₂).setFd idx j₂ ((s.procs.table idx).fdTable j₁), (fd2 : Int)) := by
  have hget : vfs2FdGet (s.procs.table idx).fdTable (toFd fd1) =
      (s.procs.table idx).fdTable j₁ := by
    rw [hfd1, vfs2FdGet, if_neg (by omega), Int.toNat_natCast]
  have hclose : (s.procs.table idx).fdTable j₂ = 0 →
      (vfs2Close s.pool ((s.procs.table idx).fdTable j₂)).1 = s.pool := by
    intro hzero
    rw [hzero]
    rfl
  simp only [sysDup2, hcur, hget, hfd2, Int.toNat_natCast]
  rw [if_neg hf, if_neg (by omega)]
  simp only [Option.some.injEq, Prod.mk.injEq, and_true, Files.closeFd, Files.setFd, ProcTable.put,
    Function.update_self, Function.update_idem]
  split
  · rfl
  · rename_i hzero
    rw [hclose (by simpa using hzero)]

theorem closedFds_dup2 {idx j₂ fd1 fd2 : Nat} (hcur : procGetCurrent s.procs = some idx)
    (hf : vfs2FdGet (s.procs.table idx).fdTable (toFd fd1) ≠ 0) (hfd2 : toFd fd2 = j₂) :
    closedFds s (.dup2 fd1 fd2) = {(idx, j₂)} := by
  ext h
  simp only [closedFds, Set.mem_ofPred_eq, Set.mem_singleton_iff, hcur, hfd2,
    Option.some.injEq, Nat.cast_inj, Prod.ext_iff]
  constructor
  · rintro ⟨hi, hj, _⟩
    exact ⟨hi.symm, hj.symm⟩
  · rintro ⟨hi, hj⟩
    exact ⟨hi.symm, hj.symm, hi ▸ hf⟩

theorem FilesSound.dup2 (hs : FilesSound s) (fd1 fd2 : Nat) :
    FilesEffect s (.dup2 fd1 fd2) (s.next (.dup2 fd1 fd2)) := by
  cases hcur : procGetCurrent s.procs with
  | none =>
      have hcall : s.next (.dup2 fd1 fd2) = some s := by simp [Files.next, sysDup2, hcur]
      rw [hcall]
      refine hs.same ⟨private_of_no_objects fun h hh => ?_, fun idx hidx => ?_⟩
      · exact absurd (hcur.symm.trans hh.1) (by simp)
      · exact absurd (hcur.symm.trans hidx) (by simp)
  | some idx =>
      obtain ⟨hidx, hlive⟩ := procGetCurrent_filled hcur
      have hcurrent : ∀ {i}, procGetCurrent s.procs = some i → i = idx :=
        fun hi => Option.some.inj (hi.symm.trans hcur)
      by_cases hf : vfs2FdGet (s.procs.table idx).fdTable (toFd fd1) = 0
      · have hcall : s.next (.dup2 fd1 fd2) = some s := by simp [Files.next, sysDup2, hcur, hf]
        rw [hcall]
        refine hs.same ⟨private_of_no_objects fun h hh => ?_, fun i hi hget => ?_⟩
        · obtain ⟨hi, -, hget⟩ := hh
          rw [hcurrent hi] at hget
          exact absurd hf hget
        · rw [hcurrent hi] at hget
          exact absurd hf hget
      · by_cases hrange : toFd fd2 < 0 ∨ (procMaxFds : Int) ≤ toFd fd2
        · -- The write goes outside the table.
          have hcall : s.next (.dup2 fd1 fd2) = none := by
            simp [Files.next, sysDup2, hcur, hf, hrange]
          rw [hcall]
          refine .outside fun hprivate => ?_
          have := hprivate.2 idx hcur hf
          omega
        · obtain ⟨j₁, hfd1, hj₁, hget⟩ := vfs2FdGet_ne_zero hf
          obtain ⟨j₂, hfd2⟩ : ∃ j₂ : Nat, toFd fd2 = j₂ := ⟨(toFd fd2).toNat, by omega⟩
          have hj₂ : j₂ < procMaxFds := by omega
          have hclosed := closedFds_dup2 hcur hf hfd2
          have hne : (s.procs.table idx).fdTable j₁ ≠ 0 := hget ▸ hf
          have hcall : s.next (.dup2 fd1 fd2) =
              some ((s.closeFd idx j₂).setFd idx j₂ ((s.procs.table idx).fdTable j₁)) := by
            rw [Files.next, sysDup2_eq hcur hfd1 hj₁ hne hfd2 hj₂]
            rfl
          rw [hcall]
          obtain ⟨hagrees, hlive', hino⟩ := hs.closeFd_pool hidx hlive hj₂
          refine .moved _ (idx, j₁) (idx, j₂) _ hclosed
            (refs_eq_some.mpr ⟨hidx, hj₁, hlive, rfl, hne⟩)
            (setFd_refs_self hidx (by simpa [Files.closeFd] using hlive) hj₂ hne)
            (fun h hh => (setFd_refs_other hh).trans ((closeFd_drops idx j₂).1 h hh)) hlive'
            hagrees hino ?_
          rw [FilesPrivate, hclosed]
          refine and_congr_right fun _ => ⟨fun hargs heq => ?_, fun hneq i hi _ => ?_⟩
          · have hjj : j₁ = j₂ := congrArg Prod.snd heq
            exact (hargs idx hcur hf).2.2 (by rw [hfd1, hfd2, hjj])
          · refine ⟨by omega, by omega, fun hsame => hneq ?_⟩
            have hjj : j₁ = j₂ := by omega
            rw [hjj]

section Open

variable {idx k flags : Nat} {found : Option FoundInode}

theorem sysOpen_refused (hopen : vfs2Open s.pool flags found = (s.pool, 0)) :
    sysOpen s flags found = (s, -1) := by simp [sysOpen, hopen]

/-- The file stays in use, and no descriptor leads to it. -/
theorem sysOpen_full (hcur : procGetCurrent s.procs = some idx)
    (hnew : (vfs2Open s.pool flags found).2 = k + 1)
    (hfree : fdFree (s.procs.table idx).fdTable = none) :
    sysOpen s flags found = ({ s with pool := (vfs2Open s.pool flags found).1 }, -1) := by
  simp [sysOpen, hnew, hcur, hfree]

theorem sysOpen_given {j : Nat} (hcur : procGetCurrent s.procs = some idx)
    (hnew : (vfs2Open s.pool flags found).2 = k + 1)
    (hfree : fdFree (s.procs.table idx).fdTable = some j) :
    sysOpen s flags found = (({ s with pool := (vfs2Open s.pool flags found).1 } : Files).setFd
      idx j (k + 1), (j : Int)) := by
  simp [sysOpen, hnew, hcur, hfree]

end Open

/-- A file that is opened for the current process gets its first free descriptor. -/
theorem FilesSound.open (hs : FilesSound s) (flags : Nat) (found : Option FoundInode) :
    FilesEffect s (.open flags found) (s.next (.open flags found)) := by
  have hcall : s.next (.open flags found) = some (sysOpen s flags found).1 := rfl
  unfold sysOpen at hcall
  rcases vfs2Open_cases hs.agrees flags found with
    ⟨hfail, hopen⟩ | ⟨k, hk, hfound, hbit, hunused, hnew, hagrees, huse, hothers⟩
  · rw [hopen] at hcall
    rw [hcall]
    refine hs.same fun hfound hroom => ?_
    obtain ⟨k, hk, hbit⟩ := hroom
    rcases hfail with hnone | hfull
    · exact absurd hnone hfound
    · rw [hfull k hk] at hbit
      exact absurd hbit (by simp)
  · have hnotlive : k + 1 ∉ s.pool.live := by
      intro hin
      have := hin.2.2
      rw [Nat.add_sub_cancel, hunused] at this
      exact absurd this (by simp)
    have hlive : (vfs2Open s.pool flags found).1.live = insert (k + 1) s.pool.live := by
      ext f
      rw [Set.mem_insert_iff, mem_live_iff, mem_live_iff]
      by_cases heq : f = k + 1
      · rw [heq, Nat.add_sub_cancel, huse]
        simp
        omega
      · by_cases hzero : f = 0
        · simp [hzero]
        · rw [hothers (f - 1) (by omega)]
          simp [heq]
    have hino : ∀ h f, s.refs h = some f →
        ((vfs2Open s.pool flags found).1.filePool (f - 1)).inode =
          (s.pool.filePool (f - 1)).inode := by
      intro h f hh
      have hin := hs.sound h f hh
      have hne : f ≠ k + 1 := fun heq => hnotlive (heq ▸ hin)
      have hpos := hin.1
      rw [hothers (f - 1) (by omega)]
    generalize vfs2Open s.pool flags found = res at hcall hlive hino hagrees hnew
    obtain ⟨pool, f⟩ := res
    dsimp only at hcall hlive hino hagrees hnew
    rw [hnew] at hcall
    rw [if_neg (Nat.succ_ne_zero k)] at hcall
    cases hcur : procGetCurrent s.procs with
    | none =>
        rw [hcur] at hcall
        dsimp only at hcall
        rw [hcall]
        obtain ⟨hagrees', -, hino'⟩ := vfs2Close_spec hagrees (show k + 1 ≤ vfsFilePoolSize from hk)
        have hback : (vfs2Close pool (k + 1)).1.live = s.pool.live := by
          rw [live_close hagrees (show k + 1 ≤ vfsFilePoolSize from hk), hlive,
            Set.insert_sdiff_of_mem _ (Set.mem_singleton (k + 1)), Set.sdiff_singleton_eq_self hnotlive]
        exact .kept _ (fun _ _ hh => hh) (fun h _ hh => ⟨h, hh⟩) hback hagrees'
          (fun h f hh => (hino' _).trans (hino h f hh))
          fun _ _ idx hidx => absurd (hcur.symm.trans hidx) (by simp)
    | some idx =>
        rw [hcur] at hcall
        dsimp only at hcall
        obtain ⟨hidx, hstate⟩ := procGetCurrent_filled hcur
        cases hfree : fdFree (s.procs.table idx).fdTable with
        | none =>
            -- The file stays in use, and no descriptor leads to it.
            rw [hfree] at hcall
            rw [hcall]
            refine .leaked _ (k + 1) ⟨flags, found, rfl⟩ rfl hnotlive hlive hagrees fun hroom => ?_
            obtain ⟨j, hj, hzero⟩ := hroom hfound ⟨k, hk, hbit⟩ idx hcur
            exact absurd hzero (fdFree_eq_none.mp hfree j hj)
        | some j =>
            rw [hfree] at hcall
            rw [hcall]
            obtain ⟨hj, hzero⟩ := fdFree_spec hfree
            refine .opened _ (idx, j) (k + 1) (refs_of_fdTable_zero hzero)
              (setFd_refs_self hidx hstate hj (Nat.succ_ne_zero k))
              (fun h hne => setFd_refs_other hne) hlive hagrees hino fun _ _ i hi => ⟨j, hj, ?_⟩
            rw [Option.some.inj (hi.symm.trans hcur)]
            exact hzero

/-- An unused entry is filled with the descriptors of a process, or with none that count. -/
theorem FilesSound.fill (hs : FilesSound s) {t : ProcTable} {slot parent : Nat} {p : ProcInfo}
    (ht : t.table = s.procs.table) (hunused : (s.procs.table slot).state = .unused)
    (hparent : parent < procMax) (hlive : (s.procs.table parent).state ≠ .unused)
    (hfds : p.state = .unused ∨ p.fdTable = (s.procs.table parent).fdTable)
    (hright : FilesPrivate s c) : FilesEffect s c (some { s with procs := t.put slot p }) := by
  have hother : ∀ h : Nat × Nat, h.1 ≠ slot →
      ({ s with procs := t.put slot p } : Files).refs h = s.refs h := by
    intro h hne
    apply refs_congr
    simp [ProcTable.put, hne, ht]
  refine .kept _ (fun h f hh => ?_) (fun h o hh => ?_) rfl hs.agrees (fun _ _ _ => rfl) hright
  · have hne : h.1 ≠ slot := by
      intro heq
      have hused := (refs_eq_some.mp hh).2.2.1
      rw [heq] at hused
      exact hused hunused
    rw [hother h hne]
    exact hh
  · by_cases hi : h.1 = slot
    · obtain ⟨-, hj, hstate, hfd, hne⟩ := refs_eq_some.mp hh
      simp only [ProcTable.put, hi, Function.update_self] at hstate hfd
      rcases hfds with hstate' | hfds
      · exact absurd hstate' hstate
      · rw [hfds] at hfd
        exact ⟨(parent, h.2), refs_eq_some.mpr ⟨hparent, hj, hlive, hfd, hne⟩⟩
    · rw [hother h hi] at hh
      exact ⟨h, hh⟩

theorem FilesSound.fork (hs : FilesSound s) (cloneCr3 kstackPage : Nat) :
    FilesEffect s (.fork cloneCr3 kstackPage) (s.next (.fork cloneCr3 kstackPage)) := by
  have hright : FilesPrivate s (.fork cloneCr3 kstackPage) := private_empty
  have hcall : s.next (.fork cloneCr3 kstackPage) =
      some { s with procs := (procFork s.procs cloneCr3 kstackPage).procs } := rfl
  rw [hcall]
  unfold procFork
  cases hcur : procGetCurrent s.procs with
  | none => exact hs.same hright
  | some parent =>
      cases hslot : procFirstUnused s.procs with
      | none => exact hs.same hright
      | some slot =>
          dsimp only
          obtain ⟨hparent, hlive⟩ := procGetCurrent_filled hcur
          have hunused : (s.procs.table slot).state = .unused := by
            simpa using List.find?_some hslot
          split
          · exact hs.fill rfl hunused hparent hlive (.inl rfl) hright
          · exact hs.fill rfl hunused hparent hlive (.inr rfl) hright

/-- Every call has one of these effects. -/
theorem FilesSound.effect (hs : FilesSound s) (c : FilesCall) : FilesEffect s c (s.next c) := by
  cases c with
  | «open» flags found => exact hs.open flags found
  | close fd => exact hs.close fd
  | dup fd => exact hs.dup fd
  | dup2 fd1 fd2 => exact hs.dup2 fd1 fd2
  | fork cloneCr3 kstackPage => exact hs.fork cloneCr3 kstackPage
  | exit pid exitCode kernelCr3 => exact hs.exit pid exitCode kernelCr3
  | setCurrent pid =>
      exact .kept _ (fun _ _ hh => hh) (fun h _ hh => ⟨h, hh⟩) rfl hs.agrees (fun _ _ _ => rfl)
        private_empty

/-- Whatever keeps the descriptors, keeps what they lead to. -/
theorem FilesExact.keepsOthers (hs' : FilesExact s')
    (hrefs : ∀ h f, s.refs h = some f → h ∉ closedFds s c → s'.refs h = some f)
    (hino : ∀ h f, s.refs h = some f →
      (s'.pool.filePool (f - 1)).inode = (s.pool.filePool (f - 1)).inode) :
    KeepsOthers s c s' := by
  intro h f hh hopen
  have hh' := hrefs h f hh hopen
  exact ⟨hh', hs'.exact.mem hh', hino h f hh⟩

theorem FilesExact.right_iff (hs : FilesExact s) (c : FilesCall) :
    FilesRight s c ↔ FilesPrivate s c := by
  have heffect := hs.filesSound.effect c
  unfold FilesRight
  generalize s.next c = res at heffect
  cases heffect with
  | kept s' hkeep hnew hlive hagrees hino hright =>
      refine iff_of_true ?_ hright
      have hs' : FilesExact s' := ⟨hlive ▸ hs.exact.share hkeep hnew, hagrees⟩
      exact ⟨s', rfl, hs', hs'.keepsOthers (fun h f hh _ => hkeep h f hh) hino⟩
  | dropped s' hdrop hlive hagrees hino hright =>
      rw [hright, ← hs.exact.drop_iff hdrop, ← hlive]
      constructor
      · rintro ⟨_, ⟨⟩, hs', -⟩
        exact hs'.exact
      · intro hexact
        have hs' : FilesExact s' := ⟨hexact, hagrees⟩
        exact ⟨s', rfl, hs', hs'.keepsOthers (fun h f hh hopen => (hdrop.1 h hopen).trans hh)
          fun h f _ => hino (f - 1)⟩
  | moved s' h₁ h₂ f hclosed hfrom hself hother hlive hagrees hino hright =>
      rw [hright, ← hs.exact.move_iff hfrom hself hother, ← hlive]
      constructor
      · rintro ⟨_, ⟨⟩, hs', -⟩
        exact hs'.exact
      · intro hexact
        have hs' : FilesExact s' := ⟨hexact, hagrees⟩
        refine ⟨s', rfl, hs', hs'.keepsOthers (fun h f hh hopen => ?_) fun h f _ => hino (f - 1)⟩
        rw [hclosed] at hopen
        exact (hother h hopen).trans hh
  | opened s' h f hfree hself hother hlive hagrees hino hright =>
      refine iff_of_true ?_ hright
      have hs' : FilesExact s' := ⟨hlive ▸ hs.exact.acquire hfree hself hother, hagrees⟩
      refine ⟨s', rfl, hs', hs'.keepsOthers (fun h' f' hh _ => ?_) hino⟩
      have hne : h' ≠ h := by
        rintro rfl
        rw [hfree] at hh
        simp at hh
      exact (hother h' hne).trans hh
  | leaked s' f _ hrefs hnew hlive hagrees hwrong =>
      refine iff_of_false ?_ hwrong
      rintro ⟨_, ⟨⟩, hs', -⟩
      have hin : f ∈ s'.pool.live := hlive ▸ Set.mem_insert _ _
      obtain ⟨h, hh⟩ := (hs'.exact f).mp hin
      rw [hrefs] at hh
      exact hnew (hs.exact.mem hh)
  | outside hwrong =>
      refine iff_of_false ?_ hwrong
      rintro ⟨_, ⟨⟩, -⟩

end Calls

/-! ### Whole runs -/

/-- Processes that have nothing open, and an empty pool. -/
def Files.start (procs : ProcTable) (pool : FilePool) : Files :=
  { procs := { procs with table := fun i => { procs.table i with fdTable := fun _ => 0 } }
    pool := filePoolInit pool }

theorem filesExact_start (procs : ProcTable) (pool : FilePool) :
    FilesExact (Files.start procs pool) := by
  refine ⟨fun f => ⟨fun hin => ?_, fun ⟨h, hh⟩ => ?_⟩, fun k _ => ?_⟩
  · exact absurd hin.2.2 (by simp [Files.start, filePoolInit])
  · exact absurd (refs_eq_some.mp hh).2.2.2.1.symm (refs_eq_some.mp hh).2.2.2.2
  · simp [Files.start, filePoolInit]

/--
**A file lives as long as its descriptors, while nobody closes a shared one.**  In every state
such a run reaches the files in use are those with a descriptor.  The next call closes
descriptors without touching the files of others exactly when it meets the condition too.
-/
theorem files_exact_iff (procs : ProcTable) (pool : FilePool) {calls : List FilesCall} {s : Files}
    (hrun : Executes (Guarded FilesPrivate Files.step) (Files.start procs pool) calls s) :
    FilesExact s ∧ ∀ c, FilesRight s c ↔ FilesPrivate s c := by
  have hexact : FilesExact s := by
    refine hrun.invariant (fun s c s' hs hstep => ?_) (filesExact_start procs pool)
    obtain ⟨hguard, hnext⟩ := hstep
    obtain ⟨s'', hnext', hs'', -⟩ := (hs.right_iff c).mpr hguard
    rw [Option.some.inj (hnext.symm.trans hnext')]
    exact hs''
  exact ⟨hexact, fun c => hexact.right_iff c⟩

/-- One process with pid 1, which is running. -/
def oneProc : ProcTable where
  table i :=
    { pid := if i = 0 then 1 else 0, ppid := 0, state := if i = 0 then .running else .unused,
      name := [], exitCode := 0, fdTable := fun _ => 0, cwd := ['/'], isUser := false, cr3 := 0,
      userEntry := 0, userStackTop := 0, brk := 0, brkStart := 0, kernelStack := 0,
      ctx := userCtx 0 0 }
  pidToIndex _ := 0
  freeSlotsBitmap := 1
  nextPid := 2
  currentPid := 1

def emptyPool : FilePool where
  filePool _ := { inode := 0, pos := 0, flags := 0, fops := 0, privateData := 0, inUse := false }
  filePoolBitmap := 0

def someInode : FoundInode :=
  { inode := 7, mode := vfsIfReg, size := 0, fsPrivate := 3, fops := 1 }

/-- A file is opened, its descriptor is copied, and the process exits with both. -/
theorem files_exact_exit_after_dup :
    ∃ s, Executes (Guarded FilesPrivate Files.step) (Files.start oneProc emptyPool)
        [.open 0 (some someInode), .dup 0, .exit 1 0 0] s ∧
      FilesExact s ∧ ∀ c, FilesRight s c ↔ FilesPrivate s c := by
  -- Both calls only write descriptors of the first entry, the one process there is.
  have hopen : (sysOpen (Files.start oneProc emptyPool) 0 (some someInode)).1 =
      ({ Files.start oneProc emptyPool with
        pool := (vfs2Open (filePoolInit emptyPool) 0 (some someInode)).1 } : Files).setFd 0 0 1 :=
    rfl
  have hdup : (sysDup (sysOpen (Files.start oneProc emptyPool) 0 (some someInode)).1 0).1 =
      (sysOpen (Files.start oneProc emptyPool) 0 (some someInode)).1.setFd 0 1 1 := rfl
  have hexit : FilesPrivate (sysDup (sysOpen (Files.start oneProc emptyPool) 0
      (some someInode)).1 0).1 (.exit 1 0 0) := by
    intro h o hh _
    have hused := (refs_eq_some.mp hh).2.2.1
    rw [hdup, setFd_state, hopen, setFd_state] at hused
    have hzero : h.1 = 0 := by
      by_contra hne
      exact hused (if_neg hne)
    refine ⟨by decide, ?_⟩
    rw [hzero]
    decide +kernel
  have hrun : Executes (Guarded FilesPrivate Files.step) (Files.start oneProc emptyPool)
      [.open 0 (some someInode), .dup 0, .exit 1 0 0] _ :=
    .cons ⟨fun _ _ _ _ => ⟨0, by decide, rfl⟩, rfl⟩
      (.cons ⟨private_of_no_objects fun _ hh => absurd hh (Set.notMem_empty _), rfl⟩
        (.cons ⟨hexit, rfl⟩ (.nil _)))
  exact ⟨_, hrun, files_exact_iff oneProc emptyPool hrun⟩

/-- The copy of a closed descriptor leads to a file that is no longer in use. -/
theorem files_close_frees_shared :
    ∃ s s', Executes Files.step (Files.start oneProc emptyPool)
        [.open 0 (some someInode), .dup 0] s ∧ s.next (.close 0) = some s' ∧
      s.refs (0, 1) = some 1 ∧ (0, 1) ∉ closedFds s (.close 0) ∧
      s'.refs (0, 1) = some 1 ∧ 1 ∉ s'.pool.live ∧ ¬ FilesExact s' := by
  have hrefs : (sysClose (sysDup (sysOpen (Files.start oneProc emptyPool) 0 (some someInode)).1
      0).1 0).1.refs (0, 1) = some 1 := by decide +kernel
  have hfreed : 1 ∉ (sysClose (sysDup (sysOpen (Files.start oneProc emptyPool) 0
      (some someInode)).1 0).1 0).1.pool.live := by
    intro hin
    exact absurd hin.2.2 (by decide +kernel)
  refine ⟨_, _, .cons rfl (.cons rfl (.nil _)), rfl, by decide +kernel, ?_, hrefs, hfreed,
    fun hexact => hfreed (hexact.exact.mem hrefs)⟩
  intro hclosed
  exact absurd hclosed.2 (by decide)

end BrightS
