/-
Which open file a descriptor number acts on.

A run of one process is followed with a history beside it: which opening each file object
serves, which opening each descriptor was filled for, which numbers were returned and not
closed, and which openings were released by closing some descriptor.  A number then acts
on the file it was returned for exactly when it is none of the three that `read` and
`write` keep for the terminal and its opening was not released (`descriptor_acts_iff`).
-/
import BrightS.Kernel.FileIo
import BrightS.Proofs.Files

namespace BrightS

open Runs Words

variable {W : Type}

theorem currentFd_small {files : Files} {idx j : Nat} (hcur : procGetCurrent files.procs = some idx)
    (hj : j < procMaxFds) : currentFd files j = (files.procs.table idx).fdTable j := by
  rw [currentFd, hcur]
  dsimp only
  rw [toFd_small hj, vfs2FdGet, if_neg (by omega), Int.toNat_natCast]

/-! ### Acting on a file -/

/-- Whatever the filesystems and the terminal do, a call on the number is one on the file. -/
structure ActsOn (files : Files) (n f : Nat) : Prop where
  read : ∀ (W : Type) (env : IoEnv W) (w : W) (len : Nat),
    sysRead env ⟨files, w⟩ n len = vfs2Read env ⟨files, w⟩ f len
  write : ∀ (W : Type) (env : IoEnv W) (w : W) (buf : List UInt8),
    sysWrite env ⟨files, w⟩ n buf = vfs2Write env ⟨files, w⟩ f buf
  lseek : ∀ (W : Type) (env : IoEnv W) (w : W) (offset whence : Nat),
    sysLseek env ⟨files, w⟩ n offset whence =
      vfs2Lseek env ⟨files, w⟩ f (toI64 offset) (toFd whence)

/-- No call can tell the two numbers apart. -/
structure SameFd (files : Files) (n m : Nat) : Prop where
  read : ∀ (W : Type) (env : IoEnv W) (w : W) (len : Nat),
    sysRead env ⟨files, w⟩ n len = sysRead env ⟨files, w⟩ m len
  write : ∀ (W : Type) (env : IoEnv W) (w : W) (buf : List UInt8),
    sysWrite env ⟨files, w⟩ n buf = sysWrite env ⟨files, w⟩ m buf
  lseek : ∀ (W : Type) (env : IoEnv W) (w : W) (offset whence : Nat),
    sysLseek env ⟨files, w⟩ n offset whence = sysLseek env ⟨files, w⟩ m offset whence

theorem ActsOn.same {files : Files} {n m f : Nat} (hn : ActsOn files n f) (hm : ActsOn files m f) :
    SameFd files n m :=
  ⟨fun W env w len => (hn.read W env w len).trans (hm.read W env w len).symm,
    fun W env w buf => (hn.write W env w buf).trans (hm.write W env w buf).symm,
    fun W env w offset whence =>
      (hn.lseek W env w offset whence).trans (hm.lseek W env w offset whence).symm⟩

/-- The numbers that `read` or `write` take for the terminal. -/
def Terminal (n : Nat) : Prop := n = 0 ∨ n = 1 ∨ n = 2

/-- A terminal that counts what it is asked, and files that do nothing. -/
def countingEnv : IoEnv Nat where
  fileOps _ := ⟨none, none, none⟩
  inodeSize _ _ := 0
  ttyReadChar w := (w + 1, 0)
  serialWrite w _ := w + 1

theorem countingEnv_read (s : FileIo Nat) (f len : Nat) :
    (vfs2Read countingEnv s f len).1.world = s.world := by
  unfold vfs2Read
  split_ifs <;> rfl

theorem ActsOn.not_terminal {files : Files} {n f : Nat} (h : ActsOn files n f) : ¬ Terminal n := by
  rintro (rfl | hn)
  · have hread := congrArg (fun r => r.1.world) (h.read Nat countingEnv 0 1)
    rw [countingEnv_read] at hread
    exact absurd hread (by simp [sysRead, ttyRead, countingEnv])
  · have hwrite := h.write Nat countingEnv 0 [0]
    rw [sysWrite, if_pos hn] at hwrite
    unfold vfs2Write at hwrite
    split_ifs at hwrite
    · simp [countingEnv] at hwrite
    · simp [countingEnv] at hwrite

theorem actsOn_of_currentFd {files : Files} {n : Nat} (hfd : currentFd files n ≠ 0)
    (hn : ¬ Terminal n) : ActsOn files n (currentFd files n) := by
  unfold Terminal at hn
  push Not at hn
  refine ⟨fun W env w len => ?_, fun W env w buf => ?_, fun W env w offset whence => ?_⟩
  · rw [sysRead, if_neg hn.1, if_neg hfd]
  · rw [sysWrite, if_neg (by omega), if_neg hfd]
  · rw [sysLseek, if_neg hfd]

/-! ### Runs of one process -/

inductive IoCall where
  | open (flags : Nat) (found : Option FoundInode)
  | dup (fd : Nat)
  | dup2 (fd1 fd2 : Nat)
  | close (fd : Nat)
  | read (fd len : Nat)
  | write (fd : Nat) (buf : List UInt8)
  | lseek (fd offset whence : Nat)

/-- The state with its history.  Openings are numbered. -/
structure IoRun (W : Type) where
  io : FileIo W
  opened : Nat
  /-- The opening a file object serves. -/
  serves : Nat → Option Nat
  /-- The opening a descriptor was filled for. -/
  filledFor : Nat → Option Nat
  /-- The numbers that were returned and not closed. -/
  given : Set Nat
  /-- The openings whose file object was given back to the pool. -/
  released : Set Nat

/-- The history once file object `f` was closed. -/
def IoRun.release (t : IoRun W) (f : Nat) : IoRun W :=
  { t with
    released := {id | id ∈ t.released ∨ t.serves f = some id}
    serves := Function.update t.serves f none }

/-- The history once the descriptor of this number was closed. -/
def IoRun.drop (t : IoRun W) (fd : Nat) : IoRun W :=
  { t with given := {n | n ∈ t.given ∧ toFd n ≠ toFd fd} }

/-- The history once number `n` was returned for an opening. -/
def IoRun.give (t : IoRun W) (n : Nat) (id : Option Nat) : IoRun W :=
  { t with
    given := insert n t.given
    filledFor := Function.update t.filledFor (toFd n).toNat id }

def IoRun.withFiles (t : IoRun W) (files : Files) : IoRun W :=
  { t with io := { t.io with files := files } }

/-- What a call does to the state and the history; nothing when it is undefined. -/
def IoRun.next (env : IoEnv W) (t : IoRun W) : IoCall → Option (IoRun W)
  | .open flags found =>
      let r := sysOpen t.io.files flags found
      let f := (vfs2Open t.io.files.pool flags found).2
      let t' := { t.withFiles r.1 with
        opened := t.opened + 1, serves := Function.update t.serves f (some t.opened) }
      some (if f = 0 then t.withFiles r.1 else
        if r.2 < 0 then t' else t'.give r.2.toNat (some t.opened))
  | .dup fd =>
      let r := sysDup t.io.files fd
      let t' := t.withFiles r.1
      some (if r.2 < 0 then t' else t'.give r.2.toNat (t.filledFor (toFd fd).toNat))
  | .dup2 fd1 fd2 => (sysDup2 t.io.files fd1 fd2).map fun r =>
      let t' := t.withFiles r.1
      if r.2 < 0 then t' else
      ((t'.release (currentFd t.io.files fd2)).drop fd2).give fd2 (t.filledFor (toFd fd1).toNat)
  | .close fd =>
      let r := sysClose t.io.files fd
      let t' := t.withFiles r.1
      some (if r.2 < 0 then t' else (t'.release (currentFd t.io.files fd)).drop fd)
  | .read fd len => some { t with io := (sysRead env t.io fd len).1 }
  | .write fd buf => (sysWrite env t.io fd buf).map fun r => { t with io := r.1 }
  | .lseek fd offset whence => some { t with io := (sysLseek env t.io fd offset whence).1 }

def IoRun.step (env : IoEnv W) (t : IoRun W) (c : IoCall) (t' : IoRun W) : Prop :=
  t.next env c = some t'

/-- A process with its open files, each of which counts as one opening. -/
def IoRun.start (io : FileIo W) : IoRun W where
  io := io
  opened := vfsFilePoolSize + 1
  serves f :=
    if f ≠ 0 ∧ f ≤ vfsFilePoolSize ∧ (io.files.pool.filePool (f - 1)).inUse = true then some f
    else none
  filledFor j := some (currentFd io.files j)
  given := ∅
  released := ∅

/-- The number acts on the file it was returned for. -/
def IoRun.ActsOnOwn (t : IoRun W) (n : Nat) : Prop :=
  ∃ id f, t.filledFor (toFd n).toNat = some id ∧ t.serves f = some id ∧ ActsOn t.io.files n f

/-- The number is not one for the terminal, and no descriptor of its file was closed. -/
def IoRun.Undisturbed (t : IoRun W) (n : Nat) : Prop :=
  ¬ Terminal n ∧ ∀ id, t.filledFor (toFd n).toNat = some id → id ∉ t.released

/-! ### The history is right -/

def IoRun.table (t : IoRun W) (idx : Nat) : Nat → Nat := (t.io.files.procs.table idx).fdTable

structure IoRunOk (idx : Nat) (t : IoRun W) : Prop where
  current : procGetCurrent t.io.files.procs = some idx
  agrees : t.io.files.pool.Agrees
  serving : ∀ f id, t.serves f = some id →
    f ∈ t.io.files.pool.live ∧ id ∉ t.released ∧ id < t.opened
  once : ∀ f f' id, t.serves f = some id → t.serves f' = some id → f = f'
  old : ∀ id ∈ t.released, id < t.opened
  slot : ∀ j, j < procMaxFds → t.table idx j ≠ 0 → t.table idx j ≤ vfsFilePoolSize ∧
    ∃ id, t.filledFor j = some id ∧ (id ∉ t.released → t.serves (t.table idx j) = some id)
  given : ∀ n ∈ t.given, ∃ j, j < procMaxFds ∧ toFd n = j ∧ t.table idx j ≠ 0

section Ok

variable {idx : Nat} {t : IoRun W}

theorem IoRunOk.currentFd_eq (h : IoRunOk idx t) {n j : Nat} (hj : j < procMaxFds)
    (hn : toFd n = j) : currentFd t.io.files n = t.table idx j := by
  rw [currentFd, h.current]
  dsimp only
  rw [hn, vfs2FdGet, if_neg (by omega), Int.toNat_natCast]
  rfl

/-- A file object is given back. -/
theorem IoRunOk.close (h : IoRunOk idx t) {f : Nat} (hf : f ≤ vfsFilePoolSize) :
    IoRunOk idx ((t.withFiles { t.io.files with
      pool := (vfs2Close t.io.files.pool f).1 }).release f) := by
  obtain ⟨hagrees, -, -⟩ := vfs2Close_spec h.agrees hf
  have hlive := live_close h.agrees hf
  have hkept : ∀ {g id}, Function.update t.serves f none g = some id →
      g ≠ f ∧ t.serves g = some id := by
    intro g id hg
    by_cases hgf : g = f
    · rw [hgf, Function.update_self] at hg
      exact absurd hg (by simp)
    · rw [Function.update_of_ne hgf] at hg
      exact ⟨hgf, hg⟩
  refine ⟨h.current, hagrees, fun g id hg => ?_, fun g g' id hg hg' => ?_, fun id hid => ?_,
    fun j hj hopen => ?_, h.given⟩
  · obtain ⟨hgf, hold⟩ := hkept hg
    obtain ⟨hin, hnot, hlt⟩ := h.serving g id hold
    refine ⟨?_, ?_, hlt⟩
    · show g ∈ (vfs2Close t.io.files.pool f).1.live
      rw [hlive]
      exact ⟨hin, hgf⟩
    · rintro (hrel | hsame)
      · exact hnot hrel
      · exact hgf (h.once g f id hold hsame)
  · exact h.once g g' id (hkept hg).2 (hkept hg').2
  · rcases hid with hrel | hserves
    · exact h.old id hrel
    · exact (h.serving f id hserves).2.2
  · obtain ⟨hle, id, hfor, hserves⟩ := h.slot j hj hopen
    refine ⟨hle, id, hfor, fun hnot => ?_⟩
    have hnot' : id ∉ t.released := fun hrel => hnot (.inl hrel)
    have hne : t.table idx j ≠ f := by
      intro heq
      rw [heq] at hserves
      exact hnot (.inr (hserves hnot'))
    show Function.update t.serves f none (t.table idx j) = some id
    rw [Function.update_of_ne hne]
    exact hserves hnot'

theorem table_setFd_self {j f : Nat} :
    (t.withFiles (t.io.files.setFd idx j f)).table idx j = f := setFd_fdTable_self

theorem table_setFd_other {j f i : Nat} (hi : i ≠ j) :
    (t.withFiles (t.io.files.setFd idx j f)).table idx i = t.table idx i :=
  setFd_fdTable_other (h := (idx, i)) fun heq => hi (congrArg Prod.snd heq)

/-- A descriptor is emptied. -/
theorem IoRunOk.clear (h : IoRunOk idx t) {fd j : Nat} (hfd : toFd fd = j) :
    IoRunOk idx ((t.withFiles (t.io.files.setFd idx j 0)).drop fd) := by
  have hslot : ∀ i, (t.withFiles (t.io.files.setFd idx j 0)).table idx i ≠ 0 → i ≠ j := by
    rintro i hopen rfl
    exact hopen table_setFd_self
  refine ⟨procGetCurrent_setFd.trans h.current, h.agrees, h.serving, h.once, h.old,
    fun i hi hopen => ?_, fun n hn => ?_⟩
  · have hne := hslot i hopen
    have hsame : ((t.withFiles (t.io.files.setFd idx j 0)).drop fd).table idx i = t.table idx i :=
      table_setFd_other hne
    rw [hsame] at hopen ⊢
    exact h.slot i hi hopen
  · obtain ⟨i, hi, hni, hopen⟩ := h.given n hn.1
    refine ⟨i, hi, hni, ?_⟩
    have hne : i ≠ j := by
      rintro rfl
      exact hn.2 (hni.trans hfd.symm)
    have hsame : ((t.withFiles (t.io.files.setFd idx j 0)).drop fd).table idx i = t.table idx i :=
      table_setFd_other hne
    rw [hsame]
    exact hopen

/-- A descriptor is filled, and a number for it is returned. -/
theorem IoRunOk.fill (h : IoRunOk idx t) {n j f id : Nat} (hj : j < procMaxFds) (hn : toFd n = j)
    (hne : f ≠ 0) (hf : f ≤ vfsFilePoolSize) (hid : id ∉ t.released → t.serves f = some id) :
    IoRunOk idx ((t.withFiles (t.io.files.setFd idx j f)).give n (some id)) := by
  have hself : ((t.withFiles (t.io.files.setFd idx j f)).give n (some id)).table idx j = f :=
    table_setFd_self
  have hother : ∀ i, i ≠ j →
      ((t.withFiles (t.io.files.setFd idx j f)).give n (some id)).table idx i = t.table idx i :=
    fun i hi => table_setFd_other hi
  have hnj : (toFd n).toNat = j := by omega
  refine ⟨procGetCurrent_setFd.trans h.current, h.agrees, h.serving, h.once, h.old,
    fun i hi hopen => ?_, fun m hm => ?_⟩
  · by_cases hij : i = j
    · rw [hij, hself]
      refine ⟨hf, id, ?_, hid⟩
      show Function.update t.filledFor (toFd n).toNat (some id) j = some id
      rw [hnj, Function.update_self]
    · rw [hother i hij] at hopen ⊢
      obtain ⟨hle, id', hfor, hserves⟩ := h.slot i hi hopen
      refine ⟨hle, id', ?_, hserves⟩
      show Function.update t.filledFor (toFd n).toNat (some id) i = some id'
      rw [hnj, Function.update_of_ne hij]
      exact hfor
  · rcases hm with rfl | hm
    · exact ⟨j, hj, hn, by rw [hself]; exact hne⟩
    · obtain ⟨i, hi, hmi, hopen⟩ := h.given m hm
      refine ⟨i, hi, hmi, ?_⟩
      by_cases hij : i = j
      · rw [hij, hself]
        exact hne
      · rw [hother i hij]
        exact hopen

/-- A new file object starts to serve a new opening. -/
theorem IoRunOk.opening (h : IoRunOk idx t) {pool : FilePool} {k : Nat} (hk : k < vfsFilePoolSize)
    (hunused : (t.io.files.pool.filePool k).inUse = false) (hagrees : pool.Agrees)
    (huse : (pool.filePool k).inUse = true)
    (hothers : ∀ i, i ≠ k → pool.filePool i = t.io.files.pool.filePool i) :
    IoRunOk idx { t.withFiles { t.io.files with pool := pool } with
      opened := t.opened + 1, serves := Function.update t.serves (k + 1) (some t.opened) } := by
  have hfresh : ∀ f id, t.serves f = some id → f ≠ k + 1 := by
    rintro f id hserves rfl
    have hin := (h.serving _ id hserves).1.2.2
    rw [Nat.add_sub_cancel, hunused] at hin
    exact Bool.noConfusion hin
  have hcases : ∀ {f id}, Function.update t.serves (k + 1) (some t.opened) f = some id →
      (f = k + 1 ∧ id = t.opened) ∨ (f ≠ k + 1 ∧ t.serves f = some id) := by
    intro f id hserves
    by_cases hf : f = k + 1
    · rw [hf, Function.update_self] at hserves
      exact .inl ⟨hf, (Option.some.inj hserves).symm⟩
    · rw [Function.update_of_ne hf] at hserves
      exact .inr ⟨hf, hserves⟩
  refine ⟨h.current, hagrees, fun f id hserves => ?_, fun f f' id hf hf' => ?_, fun id hid => ?_,
    fun j hj hopen => ?_, h.given⟩
  · rcases hcases hserves with ⟨rfl, rfl⟩ | ⟨hne, hold⟩
    · exact ⟨⟨Nat.succ_ne_zero k, hk, huse⟩, fun hrel => lt_irrefl _ (h.old _ hrel),
        Nat.lt_succ_self _⟩
    · obtain ⟨hin, hnot, hlt⟩ := h.serving f id hold
      refine ⟨⟨hin.1, hin.2.1, ?_⟩, hnot, Nat.lt_succ_of_lt hlt⟩
      have hpos := hin.1
      rw [show (IoRun.withFiles t { t.io.files with pool := pool }).io.files.pool = pool from rfl,
        hothers (f - 1) (by omega)]
      exact hin.2.2
  · rcases hcases hf with ⟨rfl, rfl⟩ | ⟨-, hold⟩
    · rcases hcases hf' with ⟨rfl, -⟩ | ⟨-, hold'⟩
      · rfl
      · exact absurd (h.serving f' _ hold').2.2 (lt_irrefl _)
    · rcases hcases hf' with ⟨-, rfl⟩ | ⟨-, hold'⟩
      · exact absurd (h.serving f _ hold).2.2 (lt_irrefl _)
      · exact h.once f f' id hold hold'
  · exact Nat.lt_succ_of_lt (h.old id hid)
  · obtain ⟨hle, id, hfor, hserves⟩ := h.slot j hj hopen
    refine ⟨hle, id, hfor, fun hnot => ?_⟩
    have hold := hserves hnot
    show Function.update t.serves (k + 1) (some t.opened) (t.table idx j) = some id
    rw [Function.update_of_ne (hfresh _ _ hold)]
    exact hold

/-- Calls that only use files keep the history right. -/
theorem IoRunOk.used (h : IoRunOk idx t) {io : FileIo W} (hprocs : io.files.procs = t.io.files.procs)
    (hbits : io.files.pool.filePoolBitmap = t.io.files.pool.filePoolBitmap)
    (huse : ∀ k, (io.files.pool.filePool k).inUse = (t.io.files.pool.filePool k).inUse) :
    IoRunOk idx { t with io := io } := by
  have htable : ({ t with io := io } : IoRun W).table idx = t.table idx := by
    unfold IoRun.table
    rw [hprocs]
  refine ⟨by rw [hprocs]; exact h.current, fun k hk => ?_, fun f id hserves => ?_, h.once, h.old,
    fun j hj hopen => ?_, fun n hn => ?_⟩
  · show bitTest io.files.pool.filePoolBitmap k = (io.files.pool.filePool k).inUse
    rw [hbits, huse]
    exact h.agrees k hk
  · obtain ⟨hin, hrest⟩ := h.serving f id hserves
    refine ⟨⟨hin.1, hin.2.1, ?_⟩, hrest⟩
    show (io.files.pool.filePool (f - 1)).inUse = true
    rw [huse]
    exact hin.2.2
  · rw [htable] at hopen ⊢
    exact h.slot j hj hopen
  · rw [htable]
    exact h.given n hn

end Ok

/-! ### One call -/

/-- Nothing but positions and the world changes. -/
structure KeepsUse (s s' : FileIo W) : Prop where
  procs : s'.files.procs = s.files.procs
  bits : s'.files.pool.filePoolBitmap = s.files.pool.filePoolBitmap
  use : ∀ k, (s'.files.pool.filePool k).inUse = (s.files.pool.filePool k).inUse

section Use

variable (env : IoEnv W) (s : FileIo W)

theorem KeepsUse.refl : KeepsUse s s := ⟨rfl, rfl, fun _ => rfl⟩

theorem KeepsUse.done (f : Nat) (r : IoResult W) : KeepsUse s (s.done f r) := by
  refine ⟨rfl, rfl, fun k => ?_⟩
  by_cases hk : k = f - 1
  · simp [FileIo.done, FileIo.file, hk]
  · simp [FileIo.done, hk]

theorem vfs2Read_use (f count : Nat) : KeepsUse s (vfs2Read env s f count).1 := by
  unfold vfs2Read
  split
  · exact .refl s
  · split
    · exact .refl s
    · exact .done s f _

theorem vfs2Write_use {f : Nat} {buf : List UInt8} {r : FileIo W × Int}
    (hcall : vfs2Write env s f buf = some r) : KeepsUse s r.1 := by
  unfold vfs2Write at hcall
  split at hcall
  · rw [← Option.some.inj hcall]
    exact .refl s
  · split at hcall
    · rw [← Option.some.inj hcall]
      exact .refl s
    · obtain ⟨res, -, rfl⟩ := Option.map_eq_some_iff.mp hcall
      exact .done s f _

theorem vfs2Lseek_use (f : Nat) (offset whence : Int) :
    KeepsUse s (vfs2Lseek env s f offset whence).1 := by
  unfold vfs2Lseek
  split
  · exact .refl s
  · split
    · exact .done s f _
    · split
      · exact .refl s
      · split
        · exact .refl s
        · exact .done s f _

end Use

section Step

variable {idx : Nat} {t t' : IoRun W}

theorem IoRunOk.uses (h : IoRunOk idx t) {io : FileIo W} (huse : KeepsUse t.io io) :
    IoRunOk idx { t with io := io } :=
  h.used huse.procs huse.bits huse.use

theorem IoRunOk.open (h : IoRunOk idx t) {env : IoEnv W} {flags : Nat} {found : Option FoundInode}
    (hnext : t.next env (.open flags found) = some t') : IoRunOk idx t' := by
  have hnext := Option.some.inj hnext
  rcases vfs2Open_cases h.agrees flags found with
    ⟨-, hopen⟩ | ⟨k, hk, -, -, hunused, hnew, hagrees, huse, hothers⟩
  · have hcall : sysOpen t.io.files flags found = (t.io.files, -1) := by simp [sysOpen, hopen]
    rw [hcall, hopen, if_pos rfl] at hnext
    rw [← hnext]
    exact h
  · have hok := h.opening hk hunused hagrees huse hothers
    rw [hnew, if_neg (Nat.succ_ne_zero k)] at hnext
    cases hfree : fdFree (t.io.files.procs.table idx).fdTable with
    | none =>
        rw [sysOpen_full h.current hnew hfree, if_pos (by simp)] at hnext
        rw [← hnext]
        exact hok
    | some j =>
        obtain ⟨hj, -⟩ := fdFree_spec hfree
        rw [sysOpen_given h.current hnew hfree, if_neg (by simp), Int.toNat_natCast] at hnext
        rw [← hnext]
        refine hok.fill hj (toFd_small hj) (Nat.succ_ne_zero k) hk fun _ => ?_
        exact Function.update_self ..

theorem IoRunOk.dup (h : IoRunOk idx t) {env : IoEnv W} {fd : Nat}
    (hnext : t.next env (.dup fd) = some t') : IoRunOk idx t' := by
  have hnext := Option.some.inj hnext
  have hrefused : sysDup t.io.files fd = (t.io.files, -1) → IoRunOk idx t' := by
    intro hcall
    rw [hcall, if_pos (by simp)] at hnext
    rw [← hnext]
    exact h
  by_cases hf : vfs2FdGet (t.io.files.procs.table idx).fdTable (toFd fd) = 0
  · exact hrefused (by simp [sysDup, h.current, hf])
  · cases hfree : fdFree (t.io.files.procs.table idx).fdTable with
    | none => exact hrefused (by simp [sysDup, h.current, hf, hfree])
    | some j =>
        obtain ⟨hj, -⟩ := fdFree_spec hfree
        obtain ⟨i, hfd, hi, hget⟩ := vfs2FdGet_ne_zero hf
        have hopen : t.table idx i ≠ 0 := fun hzero => hf (hget.trans hzero)
        obtain ⟨hle, id, hfor, hserves⟩ := h.slot i hi hopen
        have hcall : sysDup t.io.files fd = (t.io.files.setFd idx j (t.table idx i), (j : Int)) := by
          simp only [sysDup, h.current, hfree]
          rw [if_neg hf, hget]
          rfl
        rw [hcall, if_neg (by simp), Int.toNat_natCast, hfd, Int.toNat_natCast, hfor] at hnext
        rw [← hnext]
        exact h.fill hj (toFd_small hj) hopen hle hserves

theorem IoRunOk.closed (h : IoRunOk idx t) {env : IoEnv W} {fd : Nat}
    (hnext : t.next env (.close fd) = some t') : IoRunOk idx t' := by
  have hnext := Option.some.inj hnext
  by_cases hf : vfs2FdGet (t.io.files.procs.table idx).fdTable (toFd fd) = 0
  · have hcall : sysClose t.io.files fd = (t.io.files, -1) := by simp [sysClose, h.current, hf]
    rw [hcall, if_pos (by simp)] at hnext
    rw [← hnext]
    exact h
  · obtain ⟨j, hfd, hj, hget⟩ := vfs2FdGet_ne_zero hf
    have hopen : t.table idx j ≠ 0 := fun hzero => hf (hget.trans hzero)
    obtain ⟨hle, -⟩ := h.slot j hj hopen
    have hcall : sysClose t.io.files fd = (t.io.files.closeFd idx j, 0) := by
      simp only [sysClose, h.current]
      rw [if_neg hf, hget, hfd, Int.toNat_natCast]
      rfl
    rw [hcall, if_neg (by simp), h.currentFd_eq hj hfd] at hnext
    rw [← hnext]
    exact (h.close hle).clear hfd

theorem IoRunOk.dup2 (h : IoRunOk idx t) {env : IoEnv W} {fd1 fd2 : Nat}
    (hnext : t.next env (.dup2 fd1 fd2) = some t') : IoRunOk idx t' := by
  by_cases hf : vfs2FdGet (t.io.files.procs.table idx).fdTable (toFd fd1) = 0
  · have hcall : sysDup2 t.io.files fd1 fd2 = some (t.io.files, -1) := by
      simp [sysDup2, h.current, hf]
    rw [IoRun.next, hcall, Option.map_some, if_pos (by simp)] at hnext
    rw [← Option.some.inj hnext]
    exact h
  by_cases hrange : toFd fd2 < 0 ∨ (procMaxFds : Int) ≤ toFd fd2
  · have hcall : sysDup2 t.io.files fd1 fd2 = none := by simp [sysDup2, h.current, hf, hrange]
    rw [IoRun.next, hcall] at hnext
    simp at hnext
  obtain ⟨i, hfd1, hi, hget⟩ := vfs2FdGet_ne_zero hf
  obtain ⟨j, hfd2⟩ : ∃ j : Nat, toFd fd2 = j := ⟨(toFd fd2).toNat, by omega⟩
  have hj : j < procMaxFds := by omega
  have hopen : t.table idx i ≠ 0 := fun hzero => hf (hget.trans hzero)
  obtain ⟨hle, id, hfor, -⟩ := h.slot i hi hopen
  rw [IoRun.next, sysDup2_eq h.current hfd1 hi hopen hfd2 hj, Option.map_some, if_neg (by simp),
    h.currentFd_eq hj hfd2, hfd1, Int.toNat_natCast, hfor] at hnext
  rw [← Option.some.inj hnext]
  have hold : t.table idx j ≤ vfsFilePoolSize := by
    by_cases hzero : t.table idx j = 0
    · rw [hzero]
      exact Nat.zero_le _
    · exact (h.slot j hj hzero).1
  have hclosed := h.close hold
  -- The first descriptor still has its file, if that was not the one closed.
  obtain ⟨-, id', hfor', hserves⟩ := hclosed.slot i hi hopen
  obtain rfl : id = id' := Option.some.inj (hfor.symm.trans hfor')
  exact (hclosed.clear hfd2).fill hj hfd2 hopen hle hserves

/-- Every call keeps the history right. -/
theorem ioRunOk_step (env : IoEnv W) (t : IoRun W) (c : IoCall) (t' : IoRun W)
    (h : IoRunOk idx t) (hstep : t.step env c t') : IoRunOk idx t' := by
  cases c with
  | «open» flags found => exact h.open hstep
  | dup fd => exact h.dup hstep
  | dup2 fd1 fd2 => exact h.dup2 hstep
  | close fd => exact h.closed hstep
  | read fd len =>
      rw [← Option.some.inj hstep]
      apply h.uses
      unfold sysRead
      split_ifs
      · exact ⟨rfl, rfl, fun _ => rfl⟩
      · exact .refl _
      · exact vfs2Read_use env t.io _ len
  | write fd buf =>
      obtain ⟨r, hcall, rfl⟩ := Option.map_eq_some_iff.mp hstep
      apply h.uses
      unfold sysWrite at hcall
      split_ifs at hcall
      · rw [← Option.some.inj hcall]
        exact ⟨rfl, rfl, fun _ => rfl⟩
      · rw [← Option.some.inj hcall]
        exact .refl _
      · exact vfs2Write_use env t.io hcall
  | lseek fd offset whence =>
      rw [← Option.some.inj hstep]
      apply h.uses
      unfold sysLseek
      split_ifs
      · exact .refl _
      · exact vfs2Lseek_use env t.io _ _ _

end Step

/-! ### Whole runs -/

/-- A process is running, and its descriptors lead to files in use. -/
def ProcessReady (io : FileIo W) : Prop :=
  io.files.pool.Agrees ∧ ∃ idx, procGetCurrent io.files.procs = some idx ∧
    ∀ j, j < procMaxFds → (io.files.procs.table idx).fdTable j ≠ 0 →
      (io.files.procs.table idx).fdTable j ∈ io.files.pool.live

theorem ioRunOk_start {io : FileIo W} (hready : ProcessReady io) :
    ∃ idx, IoRunOk idx (IoRun.start io) := by
  obtain ⟨hagrees, idx, hcur, hlive⟩ := hready
  have hserves : ∀ {f id}, (IoRun.start io).serves f = some id → f = id ∧ f ∈ io.files.pool.live := by
    intro f id hf
    simp only [IoRun.start] at hf
    split_ifs at hf with hin
    exact ⟨Option.some.inj hf, hin⟩
  refine ⟨idx, hcur, hagrees, fun f id hf => ?_, fun f f' id hf hf' => ?_, fun id hid => ?_,
    fun j hj hopen => ?_, fun n hn => ?_⟩
  · obtain ⟨rfl, hin⟩ := hserves hf
    exact ⟨hin, Set.notMem_empty f, Nat.lt_succ_of_le hin.2.1⟩
  · exact (hserves hf).1.trans (hserves hf').1.symm
  · exact absurd hid (Set.notMem_empty id)
  · have hin := hlive j hj hopen
    refine ⟨hin.2.1, (IoRun.start io).table idx j, ?_, fun _ => if_pos hin⟩
    exact congrArg some (currentFd_small hcur hj)
  · exact absurd hn (Set.notMem_empty n)

section Denotes

variable {idx : Nat} {t : IoRun W} {n m : Nat}

theorem IoRunOk.acts_iff (h : IoRunOk idx t) (hn : n ∈ t.given) :
    t.ActsOnOwn n ↔ t.Undisturbed n := by
  constructor
  · rintro ⟨id, f, hfor, hserves, hacts⟩
    refine ⟨hacts.not_terminal, fun id' hfor' => ?_⟩
    obtain rfl : id = id' := Option.some.inj (hfor.symm.trans hfor')
    exact (h.serving f id hserves).2.1
  · rintro ⟨hterm, hnot⟩
    obtain ⟨j, hj, hnj, hopen⟩ := h.given n hn
    obtain ⟨-, id, hfor, hserves⟩ := h.slot j hj hopen
    have hslot : t.filledFor (toFd n).toNat = some id := by
      rw [hnj, Int.toNat_natCast]
      exact hfor
    have hfd := h.currentFd_eq hj hnj
    refine ⟨id, t.table idx j, hslot, hserves (hnot id hslot), ?_⟩
    rw [← hfd]
    exact actsOn_of_currentFd (by rw [hfd]; exact hopen) hterm

/-- Numbers that act on their files and were returned for the same opening are the same. -/
theorem IoRunOk.same (h : IoRunOk idx t) (hn : t.ActsOnOwn n) (hm : t.ActsOnOwn m)
    (hsame : t.filledFor (toFd n).toNat = t.filledFor (toFd m).toNat) : SameFd t.io.files n m := by
  obtain ⟨id, f, hfor, hserves, hacts⟩ := hn
  obtain ⟨id', f', hfor', hserves', hacts'⟩ := hm
  obtain rfl : id = id' := Option.some.inj (hfor.symm.trans (hsame.trans hfor'))
  obtain rfl := h.once f f' id hserves hserves'
  exact hacts.same hacts'

end Denotes

/--
**A descriptor acts on the file it was returned for, unless it is one of the terminal's or a
descriptor of that file was closed.**  After every run of a process this holds of every number
that was returned and not closed, and two of them for the same file cannot be told apart.
-/
theorem descriptor_acts_iff (env : IoEnv W) {io : FileIo W} (hready : ProcessReady io)
    {calls : List IoCall} {t : IoRun W}
    (hrun : Executes (IoRun.step env) (IoRun.start io) calls t) {n : Nat} (hn : n ∈ t.given) :
    (t.ActsOnOwn n ↔ t.Undisturbed n) ∧
      ∀ m ∈ t.given, t.filledFor (toFd n).toNat = t.filledFor (toFd m).toNat →
        t.Undisturbed n → t.Undisturbed m → SameFd t.io.files n m := by
  obtain ⟨idx, hstart⟩ := ioRunOk_start hready
  have hok := hrun.invariant (ioRunOk_step env) hstart
  refine ⟨hok.acts_iff hn, fun m hm hsame hquiet hquiet' => ?_⟩
  exact hok.same ((hok.acts_iff hn).mpr hquiet) ((hok.acts_iff hm).mpr hquiet') hsame

/-- One process, nothing open, and a terminal that counts. -/
def quietIo : FileIo Nat := ⟨Files.start oneProc emptyPool, 0⟩

theorem quietIo_ready : ProcessReady quietIo :=
  ⟨(filesExact_start oneProc emptyPool).agrees, 0, rfl, fun _ _ hopen => absurd rfl hopen⟩

/-- The copy of a first descriptor acts on the file that was opened. -/
theorem descriptor_acts_dup2 :
    ∃ t, Executes (IoRun.step countingEnv) (IoRun.start quietIo)
        [.open 0 (some someInode), .dup2 0 5] t ∧ 5 ∈ t.given ∧ t.ActsOnOwn 5 := by
  have hrun : Executes (IoRun.step countingEnv) (IoRun.start quietIo)
      [.open 0 (some someInode), .dup2 0 5] _ := .cons rfl (.cons rfl (.nil _))
  refine ⟨_, hrun, .inl rfl, (descriptor_acts_iff countingEnv quietIo_ready hrun (.inl rfl)).1.mpr ?_⟩
  refine ⟨by unfold Terminal; omega, ?_⟩
  -- Descriptor 5 was empty, so that nothing was released.
  rintro id - (hrel | hserves)
  · exact absurd hrel (Set.notMem_empty id)
  · nomatch hserves

/-- The first descriptor of a process reads from the keyboard, its copy does not. -/
theorem first_descriptor_reads_keyboard :
    ∃ t, Executes (IoRun.step countingEnv) (IoRun.start quietIo)
        [.open 0 (some someInode), .dup2 0 5] t ∧ 0 ∈ t.given ∧ 5 ∈ t.given ∧
      ¬ t.ActsOnOwn 0 ∧ ¬ SameFd t.io.files 0 5 := by
  refine ⟨_, .cons rfl (.cons rfl (.nil _)), ?_, .inl rfl, ?_, ?_⟩
  · exact .inr ⟨.inl rfl, by decide⟩
  · rintro ⟨_, _, -, -, hacts⟩
    exact hacts.not_terminal (.inl rfl)
  · intro hsame
    have hread := congrArg (fun r => r.1.world) (hsame.read Nat countingEnv 0 1)
    have hfile : ∀ s : FileIo Nat, (sysRead countingEnv s 5 1).1.world = s.world := by
      intro s
      unfold sysRead
      rw [if_neg (by decide)]
      split_ifs
      · rfl
      · exact countingEnv_read s _ 1
    rw [hfile] at hread
    exact absurd hread (by simp [sysRead, ttyRead, countingEnv])

end BrightS
