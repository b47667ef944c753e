/-
What a line does to the shell.

`handleLine_turns` says it once: a line makes calls of the file system and leaves the account
alone, or moves to another directory, or logs in or out.  It holds of every line that fits the
buffer, so no line makes a step undefined (`shell_safe`).
-/
import BrightS.Kernel.Shell
import BrightS.Lib.Refinements
import BrightS.Proofs.Commands
import BrightS.Proofs.CopyFile
import BrightS.Proofs.Profile

namespace BrightS

open Runs

/-! ### Calls of the file system -/

/-- The table after some calls. -/
def FilesRun (fs fs' : Ramfs) : Prop := ∃ calls, Executes Ramfs.step fs calls fs'

section FilesRun

variable {fs mid fs' : Ramfs}

theorem FilesRun.refl (fs : Ramfs) : FilesRun fs fs := ⟨[], .nil fs⟩

theorem FilesRun.trans (h : FilesRun fs mid) (h' : FilesRun mid fs') : FilesRun fs fs' := by
  obtain ⟨calls, hrun⟩ := h
  obtain ⟨calls', hrun'⟩ := h'
  exact ⟨calls ++ calls', hrun.append hrun'⟩

theorem FilesRun.call {c : RamfsCall} {ret : Int} (h : fs.call c = some (fs', ret)) :
    FilesRun fs fs' := ⟨[c], .cons ⟨ret, h⟩ (.nil fs')⟩

theorem FilesRun.ok (h : FilesRun fs fs') (hok : RamfsOk fs) : RamfsOk fs' := by
  obtain ⟨calls, hrun⟩ := h
  exact hrun.invariant (fun _ _ _ h hstep => h.call hstep.choose_spec) hok

theorem filesRun_mkdir (fs : Ramfs) (path : Option CStr) : FilesRun fs (ramfsMkdir fs path).1 :=
  .call (c := .mkdir path) rfl

theorem filesRun_create (fs : Ramfs) (path : Option CStr) : FilesRun fs (ramfsCreate fs path).1 :=
  .call (c := .create path) rfl

theorem filesRun_unlink (fs : Ramfs) (path : Option CStr) : FilesRun fs (ramfsUnlink fs path).1 :=
  .call (c := .unlink path) rfl

theorem filesRun_write {fd : Int} {off : Nat} {buf : List UInt8} {n : Int}
    (h : ramfsWrite fs fd off buf = some (fs', n)) : FilesRun fs fs' :=
  .call (c := .write fd off buf) h

theorem filesRun_open (fs : Ramfs) (path : CStr) : FilesRun fs (openOrCreate fs path).1 := by
  unfold openOrCreate
  cases ramfsOpen fs (some path) with
  | some fd => exact .refl fs
  | none => exact filesRun_create fs _

theorem filesRun_copyLoop {srcFd dstFd : Int} {total fuel : Nat} : ∀ {fs : Ramfs} {off : Nat}
    {ret : Int}, copyFileLoop srcFd dstFd total fuel fs off = some (fs', ret) →
      FilesRun fs fs' := by
  induction fuel with
  | zero =>
      intro fs off ret hloop
      unfold copyFileLoop at hloop
      split_ifs at hloop
      obtain ⟨rfl, -⟩ := Prod.mk.inj (Option.some.inj hloop)
      exact .refl fs
  | succ fuel ih =>
      intro fs off ret hloop
      unfold copyFileLoop at hloop
      dsimp only at hloop
      split_ifs at hloop
      · obtain ⟨rfl, -⟩ := Prod.mk.inj (Option.some.inj hloop)
        exact .refl fs
      · cases hwrite : ramfsWrite fs dstFd off (ramfsRead fs srcFd off 256).2 with
        | none =>
            rw [hwrite] at hloop
            cases hloop
        | some r =>
            rw [hwrite] at hloop
            dsimp only at hloop
            split_ifs at hloop
            · obtain ⟨rfl, -⟩ := Prod.mk.inj (Option.some.inj hloop)
              exact filesRun_write hwrite
            · exact (filesRun_write hwrite).trans (ih hloop)
      · obtain ⟨rfl, -⟩ := Prod.mk.inj (Option.some.inj hloop)
        exact .refl fs

theorem filesRun_copy {src dst : Option CStr} {ret : Int}
    (h : copyFilePath fs src dst = some (fs', ret)) : FilesRun fs fs' := by
  have hstop : ∀ {r : Int}, some (fs, (-1 : Int)) = some (fs', r) → FilesRun fs fs' := by
    intro r heq
    obtain ⟨rfl, -⟩ := Prod.mk.inj (Option.some.inj heq)
    exact .refl fs
  unfold copyFilePath at h
  cases hsrc : ramfsOpen fs src with
  | none =>
      rw [hsrc] at h
      exact hstop h
  | some srcFd =>
      rw [hsrc] at h
      dsimp only at h
      cases hdst : ramfsOpen fs dst with
      | some dstFd =>
          rw [hdst] at h
          dsimp only at h
          split_ifs at h
          · exact hstop h
          · exact hstop h
          · exact filesRun_copyLoop h
      | none =>
          rw [hdst] at h
          dsimp only at h
          split_ifs at h
          · exact hstop h
          · obtain ⟨rfl, -⟩ := Prod.mk.inj (Option.some.inj h)
            exact filesRun_create fs dst
          · exact (filesRun_create fs dst).trans (filesRun_copyLoop h)

theorem length_skipSpaces_le (s : List UInt8) : (skipSpaces s).length ≤ s.length :=
  (List.dropWhile_suffix _).length_le

/-- A write that begins in the storage and is not longer than a line or a profile is defined. -/
theorem ramfsWrite_defined (h : RamfsOk fs) (fd : Int) {off : Nat} (buf : List UInt8)
    (hoff : off ≤ ramfsFileCapacity) (hbuf : buf.length ≤ lightshellMaxCfg) :
    ∃ fs' n, ramfsWrite fs fd off buf = some (fs', n) := by
  have hcap : ramfsFileCapacity = 4096 := rfl
  have hmax : lightshellMaxCfg = 1024 := rfl
  by_cases hrange : fd < 0 ∨ (ramfsMaxFiles : Int) ≤ fd
  · exact ⟨fs, -1, by rw [ramfsWrite, if_pos hrange]⟩
  cases huse : (fs fd.toNat).inUse with
  | false =>
      refine ⟨fs, -1, ?_⟩
      unfold ramfsWrite
      rw [if_neg hrange]
      exact if_pos (.inl huse)
  | true =>
      have hfd : ((fd.toNat : Nat) : Int) = fd := by omega
      rw [← hfd, h.write_eq (by omega) huse]
      split_ifs with hdir hroom
      · exact ⟨_, _, rfl⟩
      · rw [not_or, Nat.not_le] at hdir
        rw [toWrite_of_lt hdir.2 (by omega)] at hroom
        omega
      · exact ⟨_, _, rfl⟩

theorem filesRun_pfWrite {user content : List UInt8} {ret : Int}
    (h : pfWrite fs user content = some (fs', ret)) : FilesRun fs fs' := by
  have hwrite : ∀ {fs : Ramfs} {fd : Int}, (ramfsWrite fs fd 0 content).map
      (fun r => (r.1, if 0 ≤ r.2 then (0 : Int) else -1)) = some (fs', ret) → FilesRun fs fs' := by
    intro fs fd hmap
    obtain ⟨r, hr, heq⟩ := Option.map_eq_some_iff.mp hmap
    obtain ⟨rfl, -⟩ := Prod.mk.inj heq
    exact filesRun_write hr
  unfold pfWrite at h
  cases hpath : userpfPath user 128 with
  | none =>
      rw [hpath] at h
      obtain ⟨rfl, -⟩ := Prod.mk.inj (Option.some.inj h)
      exact .refl fs
  | some path =>
      rw [hpath] at h
      dsimp only at h
      cases hopen : ramfsOpen fs (some path) with
      | some fd =>
          rw [hopen] at h
          exact hwrite h
      | none =>
          rw [hopen] at h
          dsimp only at h
          split_ifs at h
          · obtain ⟨rfl, -⟩ := Prod.mk.inj (Option.some.inj h)
            exact filesRun_create fs _
          · exact (filesRun_create fs _).trans (hwrite h)

theorem filesRun_compose {user uname host avatar email pass : List UInt8} {ret : Int}
    (h : pfCompose fs user uname host avatar email pass = some (fs', ret)) : FilesRun fs fs' := by
  unfold pfCompose at h
  dsimp only at h
  split_ifs at h
  exact filesRun_pfWrite h

theorem filesRun_setPassword {user pass : List UInt8} {ret : Int}
    (h : pfSetPassword fs user pass = some (fs', ret)) : FilesRun fs fs' := by
  unfold pfSetPassword at h
  cases hread : pfRead fs user lightshellMaxCfg with
  | none =>
      rw [hread] at h
      obtain ⟨rfl, -⟩ := Prod.mk.inj (Option.some.inj h)
      exact .refl fs
  | some cfg =>
      rw [hread] at h
      exact filesRun_compose h

theorem filesRun_setField {user key value : List UInt8} {ret : Int}
    (h : pfSetField fs user key value = some (fs', ret)) : FilesRun fs fs' := by
  unfold pfSetField at h
  cases hread : pfRead fs user lightshellMaxCfg with
  | none =>
      rw [hread] at h
      obtain ⟨rfl, -⟩ := Prod.mk.inj (Option.some.inj h)
      exact .refl fs
  | some cfg =>
      rw [hread] at h
      dsimp only at h
      split_ifs at h
      · exact filesRun_compose h
      · exact filesRun_compose h
      · exact filesRun_compose h
      · obtain ⟨rfl, -⟩ := Prod.mk.inj (Option.some.inj h)
        exact .refl fs

end FilesRun

/-! ### Commands that leave the account alone -/

/-- A command that is defined and touches nothing but the table, by calls of the file system. -/
def FilesOnly (s : Shell) (ran : Ran) : Prop :=
  ∃ fs out, ran = some ({ s with fs := fs }, out) ∧ FilesRun s.fs fs

section Commands

variable {s : Shell} {arg : List UInt8}

theorem FilesOnly.prints (s : Shell) (out : List UInt8) : FilesOnly s (some (s, out)) :=
  ⟨s.fs, out, rfl, .refl _⟩

theorem FilesOnly.reply (s : Shell) (text : String) : FilesOnly s (s.reply text) := .prints s _

theorem FilesRun.reply {fs : Ramfs} (h : FilesRun s.fs fs) (text : String) :
    FilesOnly s ({ s with fs := fs }.reply text) := ⟨fs, _, rfl, h⟩

theorem cmdPwd_files (s : Shell) : FilesOnly s (cmdPwd s) := .prints s _

theorem cmdEcho_files (s : Shell) (arg : List UInt8) : FilesOnly s (cmdEcho s arg) := .prints s _

theorem cmdWhoami_files (s : Shell) : FilesOnly s (cmdWhoami s) := .prints s _

theorem cmdProfile_files (s : Shell) : FilesOnly s (cmdProfile s) := by
  unfold cmdProfile
  cases pfRead s.fs s.currentUser lightshellMaxCfg with
  | none => exact .reply s _
  | some cfg => exact .prints s _

theorem cmdLs_files (s : Shell) (arg : List UInt8) : FilesOnly s (cmdLs s arg) := by
  unfold cmdLs
  cases resolvePath s.currentDir arg with
  | none => exact .reply s _
  | some path =>
      dsimp only
      cases ramfsStat s.fs (some path) with
      | none => exact .reply s _
      | some st =>
          dsimp only
          split_ifs
          · cases pathBasename path lightshellMaxPath with
            | none => exact .reply s _
            | some base => exact .prints s _
          · exact .reply s _
          · exact .prints s _

theorem showFile_files (usage : String) (room : Nat) (shows : List UInt8 → List UInt8) (s : Shell)
    (arg : List UInt8) : FilesOnly s (showFile usage room shows s arg) := by
  unfold showFile
  dsimp only
  split_ifs
  · exact .reply s _
  cases resolvePath s.currentDir (skipSpaces arg) with
  | none => exact .reply s _
  | some path =>
      dsimp only
      cases ramfsOpen s.fs (some path) with
      | none => exact .reply s _
      | some fd =>
          dsimp only
          split_ifs
          · exact .reply s _
          · exact .reply s _
          · exact .prints s _

theorem cmdStat_files (s : Shell) (arg : List UInt8) : FilesOnly s (cmdStat s arg) := by
  unfold cmdStat
  dsimp only
  split_ifs
  · exact .reply s _
  cases (resolvePath s.currentDir (skipSpaces arg)).bind fun path => ramfsStat s.fs path with
  | none => exact .reply s _
  | some st => exact .prints s _

theorem cmdTouch_files (s : Shell) (arg : List UInt8) : FilesOnly s (cmdTouch s arg) := by
  unfold cmdTouch
  dsimp only
  split_ifs
  · exact .reply s _
  cases resolvePath s.currentDir (skipSpaces arg) with
  | none => exact .reply s _
  | some path =>
      dsimp only
      cases ramfsOpen s.fs (some path) with
      | some fd =>
          dsimp only
          split_ifs <;> exact .reply s _
      | none =>
          dsimp only
          split_ifs
          · exact .reply s _
          · exact (filesRun_create s.fs _).reply _

theorem cmdMkdir_files (s : Shell) (arg : List UInt8) : FilesOnly s (cmdMkdir s arg) := by
  unfold cmdMkdir
  dsimp only
  split_ifs
  · exact .reply s _
  cases resolvePath s.currentDir (skipSpaces arg) with
  | none => exact .reply s _
  | some path =>
      dsimp only
      split_ifs <;> exact (filesRun_mkdir s.fs _).reply _

theorem cmdRm_files (s : Shell) (arg : List UInt8) : FilesOnly s (cmdRm s arg) := by
  unfold cmdRm
  dsimp only
  split_ifs
  · exact .reply s _
  cases resolvePath s.currentDir (skipSpaces arg) with
  | none => exact .reply s _
  | some path =>
      dsimp only
      split_ifs <;> exact (filesRun_unlink s.fs _).reply _

theorem cmdRmdir_files (s : Shell) (arg : List UInt8) : FilesOnly s (cmdRmdir s arg) := by
  unfold cmdRmdir
  dsimp only
  split_ifs
  · exact .reply s _
  cases resolvePath s.currentDir (skipSpaces arg) with
  | none => exact .reply s _
  | some path =>
      dsimp only
      cases ramfsStat s.fs (some path) with
      | none => exact .reply s _
      | some st =>
          dsimp only
          split_ifs
          · exact .reply s _
          · exact (filesRun_unlink s.fs _).reply _
          · exact (filesRun_unlink s.fs _).reply _

/-- What is done with a path that was opened or created. -/
theorem putText_files (h : RamfsOk s.fs) (usage failed : String) {offset : Ramfs → Int → Nat}
    (hoffset : ∀ fs fd, RamfsOk fs → offset fs fd ≤ ramfsFileCapacity)
    (harg : arg.length < lightshellMaxLine) :
    FilesOnly s (putText usage failed offset s arg) := by
  have hmax : lightshellMaxCfg = 1024 := rfl
  have hline : lightshellMaxLine = 256 := rfl
  unfold putText
  dsimp only
  split_ifs
  · exact .reply s _
  · exact .reply s _
  cases resolvePath s.currentDir (firstWord lightshellMaxPath (skipSpaces arg)) with
  | none => exact .reply s _
  | some path =>
      have hopen := filesRun_open s.fs path
      dsimp only
      split_ifs
      · exact hopen.reply _
      · exact hopen.reply _
      · generalize (openOrCreate s.fs path).1 = fs at hopen ⊢
        generalize (openOrCreate s.fs path).2 = fd
        have hok := hopen.ok h
        have hword := length_skipSpaces_le arg
        have hrest := length_skipSpaces_le
          ((skipSpaces arg).drop (firstWord lightshellMaxPath (skipSpaces arg)).length)
        rw [List.length_drop] at hrest
        obtain ⟨fs', n, hwrite⟩ := ramfsWrite_defined hok fd _ (hoffset fs fd hok)
          (hrest.trans (by omega))
        rw [hwrite]
        dsimp only
        split_ifs <;> exact (hopen.trans (filesRun_write hwrite)).reply _

theorem cmdWrite_files (h : RamfsOk s.fs) (harg : arg.length < lightshellMaxLine) :
    FilesOnly s (cmdWrite s arg) := putText_files h _ _ (fun _ _ _ => Nat.zero_le _) harg

theorem cmdAppend_files (h : RamfsOk s.fs) (harg : arg.length < lightshellMaxLine) :
    FilesOnly s (cmdAppend s arg) := by
  refine putText_files h _ _ (fun fs fd hok => ?_) harg
  unfold ramfsFileSize
  split_ifs
  · exact Nat.zero_le _
  · exact Nat.zero_le _
  · exact hok.size _

theorem withTwoPaths_files (usage failed : String) {act : Shell → CStr → CStr → Ran}
    (hact : ∀ src dst, FilesOnly s (act s src dst)) (arg : List UInt8) :
    FilesOnly s (withTwoPaths usage failed act s arg) := by
  unfold withTwoPaths
  cases parseTwoArgs arg lightshellMaxPath lightshellMaxPath with
  | none => exact .reply s _
  | some args =>
      dsimp only
      cases resolvePath s.currentDir args.1 with
      | none => exact .reply s _
      | some src =>
          cases resolvePath s.currentDir args.2 with
          | none => exact .reply s _
          | some dst =>
              dsimp only
              split_ifs
              · exact .reply s _
              cases ramfsStat s.fs (some src) with
              | none => exact .reply s _
              | some st =>
                  dsimp only
                  split_ifs
                  · exact .reply s _
                  · exact hact src dst

/-- Copying ends. -/
theorem copyFilePath_defined {fs : Ramfs} (h : RamfsOk fs) (src dst : Option CStr) :
    ∃ fs' ret, copyFilePath fs src dst = some (fs', ret) := by
  rcases copyFilePath_cases h src dst with ⟨fs', hfail⟩ | ⟨i, j, fs₁, -, -, -, -, -, hcopy⟩
  · exact ⟨fs', -1, hfail⟩
  · exact ⟨_, 0, hcopy⟩

theorem cmdCp_files (h : RamfsOk s.fs) (arg : List UInt8) : FilesOnly s (cmdCp s arg) := by
  refine withTwoPaths_files _ _ (fun src dst => ?_) arg
  obtain ⟨fs', ret, hcopy⟩ := copyFilePath_defined h (some src) (some dst)
  rw [hcopy]
  dsimp only
  split_ifs <;> exact (filesRun_copy hcopy).reply _

theorem cmdMv_files (h : RamfsOk s.fs) (arg : List UInt8) : FilesOnly s (cmdMv s arg) := by
  refine withTwoPaths_files _ _ (fun src dst => ?_) arg
  obtain ⟨fs', ret, hcopy⟩ := copyFilePath_defined h (some src) (some dst)
  have hrun := filesRun_copy hcopy
  rw [hcopy]
  dsimp only
  split_ifs
  · exact hrun.reply _
  · exact (hrun.trans (filesRun_unlink fs' _)).reply _
  · exact (hrun.trans (filesRun_unlink fs' _)).reply _

theorem skipSpaces_fits {cap : Nat} (h : FitsLine cap arg) : FitsLine cap (skipSpaces arg) := by
  have hsuffix := List.dropWhile_suffix (l := arg) (· = space)
  exact ⟨fun hb => h.noNul (hsuffix.subset hb), fun hb => h.noNewline (hsuffix.subset hb),
    Nat.lt_of_le_of_lt hsuffix.length_le h.length⟩

theorem findSpace_fits {cap : Nat} (h : FitsLine cap arg) : FitsLine cap (findSpace arg) := by
  have hsuffix := List.dropWhile_suffix (l := arg) (· ≠ space)
  exact ⟨fun hb => h.noNul (hsuffix.subset hb), fun hb => h.noNewline (hsuffix.subset hb),
    Nat.lt_of_le_of_lt hsuffix.length_le h.length⟩

theorem cmdSetpf_files (h : RamfsOk s.fs) (huser : FitsLine lightshellMaxUser s.currentUser)
    (harg : FitsLine lightshellMaxLine arg) : FilesOnly s (cmdSetpf s arg) := by
  unfold cmdSetpf
  dsimp only
  split_ifs
  · exact .reply s _
  · exact .reply s _
  · exact .reply s _
  · have hval := skipSpaces_fits (findSpace_fits (skipSpaces_fits harg))
    rcases pfSetField_spec h (huser.mono (by decide)) hval
      ((skipSpaces arg).takeWhile (· ≠ space)) with hfail | ⟨fs', hset, -⟩
    · rw [hfail]
      exact .reply s _
    · rw [hset]
      exact (filesRun_setField hset).reply _

theorem cmdPasswd_files (h : RamfsOk s.fs) (huser : FitsLine lightshellMaxUser s.currentUser)
    (harg : FitsLine lightshellMaxLine arg) : FilesOnly s (cmdPasswd s arg) := by
  unfold cmdPasswd
  dsimp only
  split_ifs
  · exact .reply s _
  · rcases pfSetPassword_spec h (huser.mono (by decide)) (skipSpaces_fits harg) with
      hfail | ⟨fs', hset, -⟩
    · rw [hfail]
      exact .reply s _
    · rw [hset]
      exact (filesRun_setPassword hset).reply _

/-! ### Accounts -/

/-- A user and a password that are taken from an argument fit their buffers. -/
theorem parseAccount_ok {usage : String} {user pass : List UInt8}
    (harg : FitsLine lightshellMaxLine arg) (h : parseAccount usage arg = .ok (user, pass)) :
    user ≠ [] ∧ FitsLine lightshellMaxUser user ∧ pass ≠ [] ∧ FitsLine lightshellMaxPass pass := by
  have hfits := skipSpaces_fits harg
  have hpass := skipSpaces_fits (findSpace_fits hfits)
  unfold parseAccount at h
  dsimp only at h
  split_ifs at h with husage hname hword
  obtain ⟨rfl, rfl⟩ := Prod.mk.inj (Except.ok.inj h)
  have hpre := List.takeWhile_prefix (l := skipSpaces arg) (· ≠ space)
  rw [not_or, Nat.not_le] at hname hword
  refine ⟨fun hnil => hname.1 (by rw [hnil]; rfl), ⟨fun hb => hfits.noNul (hpre.subset hb),
    fun hb => hfits.noNewline (hpre.subset hb), hname.2⟩, hword.1,
    ⟨hpass.noNul, hpass.noNewline, hword.2⟩⟩

theorem pfWrite_defined {fs : Ramfs} (h : RamfsOk fs) (user : List UInt8) {content : List UInt8}
    (hlen : content.length ≤ lightshellMaxCfg) :
    ∃ fs' ret, pfWrite fs user content = some (fs', ret) := by
  unfold pfWrite
  cases userpfPath user 128 with
  | none => exact ⟨fs, -1, rfl⟩
  | some path =>
      dsimp only
      cases ramfsOpen fs (some path) with
      | some fd =>
          obtain ⟨fs', n, hwrite⟩ := ramfsWrite_defined h fd _ (Nat.zero_le _) hlen
          dsimp only
          rw [hwrite]
          exact ⟨fs', _, rfl⟩
      | none =>
          have hok := (filesRun_create fs (some path)).ok h
          obtain ⟨fs', n, hwrite⟩ := ramfsWrite_defined hok (ramfsCreate fs (some path)).2 _
            (Nat.zero_le _) hlen
          dsimp only
          split_ifs
          · exact ⟨_, _, rfl⟩
          · rw [hwrite]
            exact ⟨fs', _, rfl⟩

theorem filesRun_seedDirectory {fs fs' : Ramfs} {dir : CStr}
    (h : seedDirectory fs dir = some fs') : FilesRun fs fs' := by
  have hrun := filesRun_mkdir fs (some dir)
  unfold seedDirectory at h
  dsimp only at h
  split_ifs at h
  · rwa [← Option.some.inj h]
  · cases hstat : ramfsStat (ramfsMkdir fs (some dir)).1 (some dir) with
    | none =>
        rw [hstat] at h
        cases h
    | some st =>
        rw [hstat] at h
        dsimp only at h
        split_ifs at h
        rwa [← Option.some.inj h]

theorem seedUserHome_run {fs : Ramfs} (h : RamfsOk fs) (user : List UInt8) :
    ∃ fs', seedUserHome fs user = some fs' ∧ FilesRun fs fs' := by
  unfold seedUserHome
  dsimp only
  cases hdir : seedDirectory fs (pathOf "/usr/home/" ++ charsOf user) with
  | none => exact ⟨fs, rfl, .refl fs⟩
  | some mid =>
      have hopen := (filesRun_seedDirectory hdir).trans
        (filesRun_open mid (pathOf "/usr/home/" ++ charsOf user ++ pathOf "/readme.txt"))
      dsimp only
      split_ifs
      · exact ⟨_, rfl, hopen⟩
      · obtain ⟨fs', n, hwrite⟩ := ramfsWrite_defined (hopen.ok h) (openOrCreate mid
          (pathOf "/usr/home/" ++ charsOf user ++ pathOf "/readme.txt")).2
          (textOf "Welcome to your home\n") (Nat.zero_le _) (by decide +kernel)
        rw [hwrite]
        exact ⟨fs', rfl, hopen.trans (filesRun_write hwrite)⟩

theorem cmdUseradd_files (h : RamfsOk s.fs) (harg : FitsLine lightshellMaxLine arg) :
    FilesOnly s (cmdUseradd s arg) := by
  unfold cmdUseradd
  split_ifs
  · exact .reply s _
  cases haccount : parseAccount "usage: useradd <user> <pass>\n" arg with
  | error text => exact .reply s _
  | ok account =>
      obtain ⟨-, huser, -, hpass⟩ := parseAccount_ok harg haccount
      dsimp only
      split_ifs
      · exact .reply s _
      cases hdir : seedUserConfigDir s.fs account.1 with
      | none => exact .reply s _
      | some mid =>
          have hmid := filesRun_seedDirectory hdir
          let r : Profile :=
            { uname := account.1, host := defaultHost, avatar := defaultAvatar
              email := defaultEmail, pass := account.2, fitsUname := huser
              fitsHost := ⟨by decide, by decide, by decide⟩
              fitsAvatar := ⟨by decide, by decide, by decide⟩
              fitsEmail := ⟨by decide, by decide, by decide⟩
              fitsPass := hpass.mono (by decide) }
          obtain ⟨fs', ret, hwrite⟩ := pfWrite_defined (hmid.ok h) account.1
            (Nat.le_of_lt r.length_text)
          have hrun := hmid.trans (filesRun_pfWrite hwrite)
          have hdefault : pfWriteDefault mid account.1 account.2 = some (fs', ret) :=
            (if_neg (Nat.not_le_of_lt r.length_text)).trans hwrite
          dsimp only
          rw [hdefault]
          dsimp only
          split_ifs
          · exact hrun.reply _
          · obtain ⟨last, hhome, hlast⟩ := seedUserHome_run (hrun.ok h) account.1
            rw [hhome]
            exact (hrun.trans hlast).reply _

end Commands

/-! ### What a line does -/

/-- The user and the password that a line logs in with. -/
def loginLine (line : List UInt8) : Option (List UInt8 × List UInt8) :=
  let cmd := skipSpaces line
  let name := firstWord 32 cmd
  if name = textOf "login" then
    (parseAccount "usage: login <user> <pass>\n" (skipSpaces (cmd.drop name.length))).toOption
  else none

def Shell.login (s : Shell) (user : List UInt8) : Shell :=
  { s with
    currentUser := user
    isRoot := user = rootName
    currentDir := if user = rootName then homeOfRoot else homeOf user }

def Shell.logout (s : Shell) : Shell :=
  { s with currentUser := guestName, currentDir := ['/'], isRoot := false }

/-- What a line can do. -/
inductive Turns (line : List UInt8) (s : Shell) : Shell → Prop where
  | files {fs : Ramfs} (hrun : FilesRun s.fs fs) : Turns line s { s with fs := fs }
  | moves {dir : CStr} (hdir : dir.length < lightshellMaxPath) :
      Turns line s { s with currentDir := dir }
  | logins {user pass : List UInt8} (hline : loginLine line = some (user, pass))
      (huser : FitsLine lightshellMaxUser user)
      (hpass : pfGetPassword s.fs user lightshellMaxPass = some pass) :
      Turns line s (s.login user)
  | logouts : Turns line s s.logout

/-- The other commands know nothing of the account and touch files by calls of the file system. -/
def OthersKeep (others : OtherCommands) : Prop :=
  ∀ s entry arg, FilesOnly s (some (others s entry arg))

/-- What every line keeps. -/
structure ShellOk (s : Shell) : Prop where
  fs : RamfsOk s.fs
  user : FitsLine lightshellMaxUser s.currentUser
  dir : s.currentDir.length < lightshellMaxPath
  root : s.isRoot = true ↔ s.currentUser = rootName

section Lines

variable {others : OtherCommands} {s s' : Shell} {line arg : List UInt8}

theorem FilesOnly.turns {ran : Ran} (h : FilesOnly s ran) :
    ∃ s' out, ran = some (s', out) ∧ Turns line s s' := by
  obtain ⟨fs, out, hran, hrun⟩ := h
  exact ⟨_, out, hran, .files hrun⟩

theorem cmdCd_turns (s : Shell) (arg : List UInt8) :
    ∃ s' out, cmdCd s arg = some (s', out) ∧ Turns line s s' := by
  unfold cmdCd
  dsimp only
  split_ifs with harg hroot
  · exact ⟨_, _, rfl, .moves (by decide)⟩
  · exact ⟨_, _, rfl, .moves (by decide)⟩
  cases resolvePath s.currentDir (skipSpaces arg) with
  | none => exact (FilesOnly.reply s _).turns
  | some path =>
      dsimp only
      cases ramfsStat s.fs (some path) with
      | none => exact (FilesOnly.reply s _).turns
      | some st =>
          dsimp only
          split_ifs
          · exact (FilesOnly.reply s _).turns
          · refine ⟨_, _, rfl, .moves ?_⟩
            have hle := List.length_take_le (lightshellMaxPath - 1) path
            have hmax : lightshellMaxPath = 128 := rfl
            omega

theorem cmdLogin_turns (hfits : FitsLine lightshellMaxLine arg)
    (hline : ∀ account, parseAccount "usage: login <user> <pass>\n" arg = .ok account →
      loginLine line = some account) :
    ∃ s' out, cmdLogin s arg = some (s', out) ∧ Turns line s s' := by
  unfold cmdLogin
  cases haccount : parseAccount "usage: login <user> <pass>\n" arg with
  | error text => exact (FilesOnly.reply s _).turns
  | ok account =>
      obtain ⟨-, huser, -, -⟩ := parseAccount_ok hfits haccount
      dsimp only
      cases hpass : pfGetPassword s.fs account.1 lightshellMaxPass with
      | none => exact (FilesOnly.reply s _).turns
      | some expected =>
          dsimp only
          by_cases hwrong : expected ≠ account.2
          · rw [if_pos hwrong]
            exact (FilesOnly.reply s _).turns
          · rw [if_neg hwrong]
            rw [ne_eq, not_not] at hwrong
            have hcopy : strCopy lightshellMaxUser account.1 = account.1 :=
              List.take_of_length_le (by have := huser.length; omega)
            rw [hcopy]
            exact ⟨_, _, rfl, .logins (hline account haccount) huser (by rw [hpass, hwrong])⟩

/-- What every line of the editor is. -/
theorem cmdHandler_turns (hothers : OthersKeep others) (h : ShellOk s)
    (harg : FitsLine lightshellMaxLine arg) (entry : Nat)
    (hlogin : cmdNames[entry]? = some "login" → ∀ account,
      parseAccount "usage: login <user> <pass>\n" arg = .ok account →
        loginLine line = some account) :
    ∃ s' out, cmdHandler others s entry arg = some (s', out) ∧ Turns line s s' := by
  unfold cmdHandler
  split
  · exact (cmdAppend_files h.fs harg.length).turns
  · exact (showFile_files _ _ _ s arg).turns
  · exact cmdCd_turns s arg
  · exact (cmdCp_files h.fs arg).turns
  · exact (cmdEcho_files s arg).turns
  · exact (showFile_files _ _ _ s arg).turns
  · exact cmdLogin_turns harg (hlogin ‹_›)
  · exact ⟨_, _, rfl, .logouts⟩
  · exact (cmdLs_files s arg).turns
  · exact (cmdMkdir_files s arg).turns
  · exact (cmdMv_files h.fs arg).turns
  · exact (cmdPasswd_files h.fs h.user harg).turns
  · exact (cmdProfile_files s).turns
  · exact (cmdPwd_files s).turns
  · exact (cmdRm_files s arg).turns
  · exact (cmdRmdir_files s arg).turns
  · exact (cmdSetpf_files h.fs h.user harg).turns
  · exact (cmdStat_files s arg).turns
  · exact (cmdTouch_files s arg).turns
  · exact (cmdUseradd_files h.fs harg).turns
  · exact (cmdWhoami_files s).turns
  · exact (cmdWrite_files h.fs harg.length).turns
  · exact (hothers s entry arg).turns

theorem FitsLine.suffix {cap : Nat} {text rest : List UInt8} (h : FitsLine cap text)
    (hrest : rest <:+ text) : FitsLine cap rest :=
  ⟨fun hb => h.noNul (hrest.subset hb), fun hb => h.noNewline (hrest.subset hb),
    Nat.lt_of_le_of_lt hrest.length_le h.length⟩

/-- **A line.** -/
theorem handleLine_turns (hothers : OthersKeep others) (h : ShellOk s)
    (hline : FitsLine lightshellMaxLine line) :
    ∃ s' out, handleLine others s line = some (s', out) ∧ Turns line s s' := by
  unfold handleLine
  dsimp only
  split_ifs with hempty
  · exact (FilesOnly.prints s _).turns
  cases hfind : cmdFind (firstWord 32 (skipSpaces line)) with
  | none => exact (FilesOnly.reply s _).turns
  | some entry =>
      have harg := skipSpaces_fits ((skipSpaces_fits hline).suffix (List.drop_suffix
        (firstWord 32 (skipSpaces line)).length _))
      refine cmdHandler_turns hothers h harg entry fun hname account haccount => ?_
      have htable := cmdFind_some hfind
      have hclean : (0 : UInt8) ∉ firstWord 32 (skipSpaces line) := fun hb =>
        (skipSpaces_fits hline).noNul ((List.takeWhile_prefix _).subset (List.mem_of_mem_take hb))
      have hself : cStrOf (firstWord 32 (skipSpaces line)) = firstWord 32 (skipSpaces line) :=
        List.takeWhile_eq_self_iff.mpr fun b hb =>
          decide_eq_true fun hz : b = 0 => hclean (hz ▸ hb)
      rw [hself] at htable
      unfold cmdTable at htable
      rw [List.getElem?_map, hname] at htable
      have hlogin : firstWord 32 (skipSpaces line) = textOf "login" := (Option.some.inj htable).symm
      unfold loginLine
      dsimp only
      rw [if_pos hlogin, haccount]
      rfl

theorem ShellOk.guest (hfs : RamfsOk s.fs) : ShellOk s.logout := by
  have hguest : 0 ∉ guestName ∧ newline ∉ guestName ∧ guestName.length < lightshellMaxUser ∧
      guestName ≠ rootName := by decide +kernel
  exact ⟨hfs, ⟨hguest.1, hguest.2.1, hguest.2.2.1⟩, (by decide : ['/'].length < lightshellMaxPath),
    iff_of_false Bool.false_ne_true hguest.2.2.2⟩

theorem Turns.ok (ht : Turns line s s') (h : ShellOk s) : ShellOk s' := by
  cases ht with
  | files hrun => exact ⟨hrun.ok h.fs, h.user, h.dir, h.root⟩
  | moves hdir => exact ⟨h.fs, h.user, hdir, h.root⟩
  | @logins user pass hline huser hpass =>
      refine ⟨h.fs, huser, ?_, decide_eq_true_iff⟩
      have hle := List.length_take_le (lightshellMaxPath - 1) (pathOf "/usr/home/" ++ charsOf user)
      have hmax : lightshellMaxPath = 128 := rfl
      unfold Shell.login homeOf
      dsimp only
      split_ifs
      · decide
      · omega
  | logouts => exact .guest h.fs

/-- A session is that of root by logging in with the password that is in the profile. -/
theorem Turns.root (ht : Turns line s s') (hbefore : s.isRoot = false) (hroot : s'.isRoot = true) :
    ∃ pass, loginLine line = some (rootName, pass) ∧
      pfGetPassword s.fs rootName lightshellMaxPass = some pass := by
  cases ht with
  | files hrun => exact absurd hroot (by simp [hbefore])
  | moves hdir => exact absurd hroot (by simp [hbefore])
  | logins hline huser hpass =>
      obtain rfl := of_decide_eq_true hroot
      exact ⟨_, hline, hpass⟩
  | logouts => exact absurd hroot Bool.false_ne_true

/-- A line of the editor is handed to the shell. -/
def Shell.step (others : OtherCommands) (s : Shell) (line : List UInt8) (s' : Shell) : Prop :=
  FitsLine lightshellMaxLine line ∧ ∃ out, handleLine others s line = some (s', out)

theorem Shell.step_turns (hothers : OthersKeep others) (h : ShellOk s)
    (hstep : s.step others line s') : Turns line s s' := by
  obtain ⟨hline, out, hhandle⟩ := hstep
  obtain ⟨s₁, out₁, hhandle₁, hturns⟩ := handleLine_turns hothers h hline
  rw [hhandle] at hhandle₁
  obtain ⟨rfl, -⟩ := Prod.mk.inj (Option.some.inj hhandle₁)
  exact hturns

/-- The shell as the kernel leaves it, on this table. -/
def shellStart (fs : Ramfs) : Shell := ⟨fs, guestName, ['/'], false⟩

theorem shellStart_ok {fs₀ fs : Ramfs} (hrun : FilesRun (ramfsInit fs₀) fs) :
    ShellOk (shellStart fs) :=
  ShellOk.guest (s := shellStart fs) (hrun.ok (ramfsOk_init fs₀))

/--
**No line is too much.**  From every table of the file system, whatever lines of the editor are
handed to the shell, every step is defined: no store leaves a buffer, the table stays a tree, the
user and the directory fit their buffers, and the session is that of root exactly while its user
is root.
-/
theorem shell_safe (hothers : OthersKeep others) {fs₀ fs : Ramfs}
    (hrun : FilesRun (ramfsInit fs₀) fs) {lines : List (List UInt8)}
    (hlines : ∀ line ∈ lines, FitsLine lightshellMaxLine line) :
    ∃ s, Executes (Shell.step others) (shellStart fs) lines s ∧ ShellOk s := by
  have hok := shellStart_ok hrun
  generalize shellStart fs = s at hok
  induction lines generalizing s with
  | nil => exact ⟨s, .nil s, hok⟩
  | cons line rest ih =>
      have hline := hlines line (List.mem_cons_self ..)
      obtain ⟨s', out, hhandle, hturns⟩ := handleLine_turns hothers hok hline
      obtain ⟨last, hrest, hlast⟩ :=
        ih (fun l hl => hlines l (List.mem_cons_of_mem _ hl)) s' (hturns.ok hok)
      exact ⟨last, .cons ⟨hline, out, hhandle⟩ hrest, hlast⟩

/-- Commands that do nothing. -/
def quietCommands : OtherCommands := fun s _ _ => (s, [])

theorem quietCommands_keep : OthersKeep quietCommands := fun s _ _ => .prints s []

theorem shell_safe_login :
    ∃ s, Executes (Shell.step quietCommands) (shellStart (ramfsInit blankRamfs))
      [textOf "mkdir tmp", textOf "cd tmp", textOf "login root x"] s ∧ ShellOk s := by
  refine shell_safe quietCommands_keep (.refl (ramfsInit blankRamfs)) fun line hline => ?_
  simp only [List.mem_cons, List.not_mem_nil, or_false] at hline
  rcases hline with rfl | rfl | rfl <;>
    exact ⟨by decide +kernel, by decide +kernel, by decide +kernel⟩

end Lines

end BrightS
