/-
Descriptor tables over runs, with pipes.

An entry of a descriptor table should be null or lead to a file that is in use
(`FilesSound`); then whatever is done through it later stays inside the pool.  Two things
go wrong: a file is released while another descriptor leads to it, as in the previous
module, and `pipe` stores markers that are no files.  `FdSafe` leaves exactly these out,
and the accesses outside the table (`fd_tables_sound_iff`).
-/
import BrightS.Proofs.Files

namespace BrightS

open Handles Runs

/-! ### Runs -/

structure FdState where
  files : Files
  pipes : Pipes

inductive FdCall where
  | files (c : FilesCall)
  | pipe (fildes : Bool)

/-- The state after a call; nothing when it leaves the table. -/
def FdState.next (s : FdState) : FdCall → Option FdState
  | .files c => (s.files.next c).map fun files => { s with files := files }
  | .pipe fildes => (sysPipe s.files s.pipes fildes).map fun r => ⟨r.files, r.pipes⟩

def FdState.step (s : FdState) (c : FdCall) (s' : FdState) : Prop := s.next c = some s'

/-- The call stays inside the table, descriptors lead to files in use afterwards, and `dup2` of a
descriptor onto itself does nothing. -/
def FdRight (s : FdState) (c : FdCall) : Prop :=
  ∃ s', s.next c = some s' ∧ FilesSound s'.files ∧ ∀ fd, c = .files (.dup2 fd fd) → s' = s

/-- The pipe is not made: no array or no process, no room for another pipe, or no two free
descriptors from 3 on and none at the end of the table. -/
def PipeRefused (s : FdState) (fildes : Bool) : Prop :=
  fildes = false ∨ maxPipes ≤ s.pipes.pipeCount ∨
    ∀ idx, procGetCurrent s.files.procs = some idx →
      pipeFds (s.files.procs.table idx).fdTable pipeTries = .full

/-- The files of the descriptors that are closed are nobody else's, `dup2` has another and an
existing descriptor to write to, and no pipe is made. -/
def FdSafe (s : FdState) : FdCall → Prop
  | .files (.open _ _) => True
  | .files c => FilesPrivate s.files c
  | .pipe fildes => PipeRefused s fildes

/-! ### One call -/

section Calls

variable {s : FdState}

theorem fdSafe_of_private {c : FilesCall} (hprivate : FilesPrivate s.files c) :
    FdSafe s (.files c) := by
  cases c with
  | «open» => trivial
  | _ => exact hprivate

theorem fdSafe_iff_private {c : FilesCall} (hclosed : closedFds s.files c ≠ ∅) :
    FdSafe s (.files c) ↔ FilesPrivate s.files c := by
  cases c with
  | «open» => exact absurd rfl hclosed
  | _ => rfl

/-- `dup2` of a descriptor onto itself does nothing only if it is not open. -/
theorem dup2_self {fd : Nat} (hprivate : FilesPrivate s.files (.dup2 fd fd)) :
    s.next (.files (.dup2 fd fd)) = some s := by
  have hcall : s.files.next (.dup2 fd fd) = some s.files := by
    unfold Files.next sysDup2
    cases hcur : procGetCurrent s.files.procs with
    | none => rfl
    | some idx =>
        dsimp only
        rw [if_pos]
        · rfl
        · by_contra hopen
          exact (hprivate.2 idx hcur hopen).2.2 rfl
  simp [FdState.next, hcall]

theorem FilesSound.fdRight_iff (hs : FilesSound s.files) (c : FilesCall) :
    FdRight s (.files c) ↔ FdSafe s (.files c) := by
  -- What is left to show once the descriptors are sound again.
  have hright : ∀ {files : Files}, s.files.next c = some files →
      (FilesSound files ↔ FdSafe s (.files c)) → (FdRight s (.files c) ↔ FdSafe s (.files c)) := by
    intro files hnext hiff
    constructor
    · rintro ⟨s', hs', hsound, -⟩
      simp only [FdState.next, hnext, Option.map_some, Option.some.injEq] at hs'
      rw [← hs'] at hsound
      exact hiff.mp hsound
    · intro hsafe
      refine ⟨{ s with files := files }, by simp [FdState.next, hnext], hiff.mpr hsafe,
        fun fd hfd => ?_⟩
      obtain rfl : c = .dup2 fd fd := by injection hfd
      have hself := dup2_self hsafe
      simpa [FdState.next, hnext] using hself
  -- Only opening closes nothing and still asks for something.
  have hasks : closedFds s.files c ≠ ∅ → (FdSafe s (.files c) ↔ FilesPrivate s.files c) :=
    fdSafe_iff_private
  have heffect := hs.effect c
  cases hnext : s.files.next c with
  | none =>
      rw [hnext] at heffect
      cases heffect with
      | outside hwrong =>
          refine iff_of_false ?_ fun hsafe => hwrong ?_
          · rintro ⟨s', hs', -⟩
            simp [FdState.next, hnext] at hs'
          · cases c with
            | «open» => simp [Files.next] at hnext
            | _ => exact hsafe
  | some files =>
      rw [hnext] at heffect
      apply hright hnext
      cases heffect with
      | kept _ hkeep hnew hlive hagrees hino hprivate =>
          exact iff_of_true ⟨hlive ▸ hs.sound.share hnew subset_rfl, hagrees⟩
            (fdSafe_of_private hprivate)
      | dropped _ hdrop hlive hagrees hino hprivate =>
          have hsafe : FdSafe s (.files c) ↔ Private s.files.refs (closedFds s.files c) := by
            cases c with
            | «open» => exact iff_of_true trivial private_empty
            | _ => exact hprivate
          rw [hsafe, ← hs.sound.drop_iff hdrop, ← hlive]
          exact ⟨fun h => h.sound, fun h => ⟨h, hagrees⟩⟩
      | moved _ h₁ h₂ f hclosed hfrom hself hother hlive hagrees hino hprivate =>
          have hne : closedFds s.files c ≠ ∅ := by simp [hclosed]
          rw [hasks hne, hprivate, ← hs.sound.move_iff hfrom hself hother, ← hlive]
          exact ⟨fun h => h.sound, fun h => ⟨h, hagrees⟩⟩
      | opened _ h f hfree hself hother hlive hagrees hino hprivate =>
          exact iff_of_true ⟨hlive ▸ hs.sound.acquire hself hother, hagrees⟩
            (fdSafe_of_private hprivate)
      | leaked _ f hopen hrefs hnew hlive hagrees hwrong =>
          obtain ⟨flags, found, rfl⟩ := hopen
          have hsound : Sound files.refs files.pool.live := by
            rw [hrefs, hlive]
            exact fun h o hh => .inr (hs.sound h o hh)
          exact iff_of_true ⟨hsound, hagrees⟩ trivial

theorem pipeFds_found {table : Nat → Nat} {readFd : Nat} :
    ∀ {tries : List Nat}, pipeFds table tries = .found readFd → readFd + 1 < procMaxFds := by
  intro tries
  induction tries with
  | nil => exact fun hfound => PipeFds.noConfusion hfound
  | cons i rest ih =>
      intro hfound
      rw [pipeFds] at hfound
      split_ifs at hfound with hused hlast hpair
      · exact ih hfound
      · obtain rfl : i = readFd := by injection hfound
        omega
      · exact ih hfound

/-- The marker of a pipe is no file. -/
theorem marker_not_live {p : FilePool} (idx : Nat) : idx + 0x1000 ∉ p.live := by
  intro hin
  have hle := hin.2.1
  have hsize : vfsFilePoolSize = 64 := rfl
  omega

theorem FilesSound.fdRight_pipe_iff (hs : FilesSound s.files) (fildes : Bool) :
    FdRight s (.pipe fildes) ↔ PipeRefused s fildes := by
  -- A pipe that is refused leaves the files alone.
  have hrefused : ∀ r : PipeResult, sysPipe s.files s.pipes fildes = some r →
      r.files = s.files → FdRight s (.pipe fildes) := by
    intro r hcall hsame
    refine ⟨⟨r.files, r.pipes⟩, by simp [FdState.next, hcall], ?_, fun fd hfd => ?_⟩
    · rw [hsame]
      exact hs
    · exact FdCall.noConfusion hfd
  unfold PipeRefused
  by_cases hfildes : fildes = false
  · have hcall : sysPipe s.files s.pipes fildes = some ⟨s.files, s.pipes, none, -1⟩ := by
      rw [sysPipe, if_pos hfildes]
    exact iff_of_true (hrefused _ hcall rfl) (.inl hfildes)
  by_cases hroom : maxPipes ≤ s.pipes.pipeCount
  · have hcall : sysPipe s.files s.pipes fildes = some ⟨s.files, s.pipes, none, -1⟩ := by
      rw [sysPipe, if_neg hfildes, pipeCreate, if_pos hroom]
    exact iff_of_true (hrefused _ hcall rfl) (.inr (.inl hroom))
  rw [or_iff_right hfildes, or_iff_right hroom]
  obtain ⟨res, hres⟩ : ∃ res, sysPipe s.files s.pipes fildes = res := ⟨_, rfl⟩
  have hcall := hres
  rw [sysPipe, if_neg hfildes, pipeCreate, if_neg hroom] at hcall
  dsimp only at hcall
  cases hcur : procGetCurrent s.files.procs with
  | none =>
      rw [hcur] at hcall
      exact iff_of_true (hrefused _ (hres.trans hcall.symm) rfl) fun idx hidx => by simp at hidx
  | some idx =>
      obtain ⟨hidx, hlive⟩ := procGetCurrent_filled hcur
      rw [hcur] at hcall
      dsimp only at hcall
      have hfull : (∀ i, some idx = some i → pipeFds (s.files.procs.table i).fdTable pipeTries = .full) ↔
          pipeFds (s.files.procs.table idx).fdTable pipeTries = .full := by simp
      rw [hfull]
      cases hfds : pipeFds (s.files.procs.table idx).fdTable pipeTries with
      | full =>
          rw [hfds] at hcall
          exact iff_of_true (hrefused _ (hres.trans hcall.symm) rfl) rfl
      | outside =>
          rw [hfds] at hcall
          refine iff_of_false ?_ PipeFds.noConfusion
          rintro ⟨s', hs', -⟩
          simp [FdState.next, hres, ← hcall] at hs'
      | found readFd =>
          rw [hfds] at hcall
          refine iff_of_false ?_ PipeFds.noConfusion
          rintro ⟨s', hs', hsound, -⟩
          simp only [FdState.next, hres, ← hcall, Option.map_some, Option.some.injEq] at hs'
          have hlast := pipeFds_found hfds
          -- The first of the two descriptors leads to the marker.
          have hmarker : s'.files.refs (idx, readFd) = some (s.pipes.pipeCount + 0x1000) := by
            rw [← hs', setFd_refs_other (by simp)]
            exact setFd_refs_self hidx hlive (by omega) (by omega)
          exact marker_not_live _ (hsound.sound _ _ hmarker)

theorem FilesSound.right_iff (hs : FilesSound s.files) (c : FdCall) :
    FdRight s c ↔ FdSafe s c := by
  cases c with
  | files c => exact hs.fdRight_iff c
  | pipe fildes => exact hs.fdRight_pipe_iff fildes

end Calls

/-! ### Whole runs -/

/--
**Descriptors lead to files in use, as long as no shared file is closed and no pipe made.**  In
every state such a run reaches every descriptor is null or leads to a file in use.  The next call
keeps that, and stays inside the table, exactly when it meets the condition too.
-/
theorem fd_tables_sound_iff (procs : ProcTable) (pool : FilePool) (pipes : Pipes)
    {calls : List FdCall} {s : FdState}
    (hrun : Executes (Guarded FdSafe FdState.step) ⟨Files.start procs pool, pipes⟩ calls s) :
    FilesSound s.files ∧ ∀ c, FdRight s c ↔ FdSafe s c := by
  have hsound : FilesSound s.files := by
    refine hrun.invariant (P := fun t => FilesSound t.files) (fun t c t' ht hstep => ?_)
      (filesExact_start procs pool).filesSound
    obtain ⟨hsafe, hnext⟩ := hstep
    obtain ⟨t'', hnext', ht'', -⟩ := (ht.right_iff c).mpr hsafe
    rw [Option.some.inj (hnext.symm.trans hnext')]
    exact ht''
  exact ⟨hsound, hsound.right_iff⟩

def noPipes : Pipes where
  pipeTable _ :=
    { buf := fun _ => 0, rd := 0, wr := 0, len := 0, readEndOpen := false, writeEndOpen := false }
  pipeCount := 0

/-- A file is opened and its descriptor is copied to a free number. -/
theorem fd_tables_sound_dup2 :
    ∃ s, Executes (Guarded FdSafe FdState.step) ⟨Files.start oneProc emptyPool, noPipes⟩
        [.files (.open 0 (some someInode)), .files (.dup2 0 5)] s ∧
      FilesSound s.files ∧ ∀ c, FdRight s c ↔ FdSafe s c := by
  have hsafe : FdSafe ⟨(sysOpen (Files.start oneProc emptyPool) 0 (some someInode)).1, noPipes⟩
      (.files (.dup2 0 5)) := by
    refine ⟨private_of_no_objects fun h hh => ?_, fun idx hidx _ => by decide⟩
    obtain ⟨i, j⟩ := h
    obtain ⟨hcur, hfd, -⟩ := hh
    have hi : 0 = i := Option.some.inj (show some 0 = some i from hcur)
    have hj : 5 = j := by
      have hfive : toFd 5 = (5 : Nat) := by decide
      rw [hfive] at hfd
      exact Int.ofNat_inj.mp hfd
    apply refs_of_fdTable_zero
    rw [← hi, ← hj]
    decide +kernel
  have hrun : Executes (Guarded FdSafe FdState.step) ⟨Files.start oneProc emptyPool, noPipes⟩
      [.files (.open 0 (some someInode)), .files (.dup2 0 5)] _ :=
    .cons ⟨trivial, rfl⟩ (.cons ⟨hsafe, rfl⟩ (.nil _))
  exact ⟨_, hrun, fd_tables_sound_iff oneProc emptyPool noPipes hrun⟩

/-- A pipe, a `dup2` outside the table and one of a descriptor onto itself. -/
theorem fd_tables_broken :
    (∃ s, Executes FdState.step ⟨Files.start oneProc emptyPool, noPipes⟩ [.pipe true] s ∧
      ¬ FilesSound s.files) ∧
    ∃ s, Executes FdState.step ⟨Files.start oneProc emptyPool, noPipes⟩
        [.files (.open 0 (some someInode))] s ∧
      s.next (.files (.dup2 0 32)) = none ∧
      ∃ s', s.next (.files (.dup2 0 0)) = some s' ∧ ¬ FilesSound s'.files := by
  refine ⟨⟨_, .cons rfl (.nil _), fun hsound => ?_⟩, _, .cons rfl (.nil _), rfl, _, rfl,
    fun hsound => ?_⟩
  · have hmarker := hsound.sound (0, 3) 0x1000 (by decide +kernel)
    exact marker_not_live 0 hmarker
  · have hlive := hsound.sound (0, 0) 1 (by decide +kernel)
    exact absurd hlive.2.2 (by decide +kernel)

end BrightS
