/-
How a session becomes that of root.

Nothing but a login with the password in the profile of root does it (`root_by_password`).  But the
profile is a file, and no command asks whose it is: whoever is at the keyboard puts another in its
place and logs in with that one (`root_for_everyone`).
-/
import BrightS.Proofs.Boot
import BrightS.Proofs.RamfsTrees

namespace BrightS

open Runs

/-! ### A file in place of another -/

/-- The name of an entry ends in a slash and a name. -/
theorem CanonicalName.split {name : CStr} (h : CanonicalName name) :
    ∃ dir base, name = dir ++ '/' :: base ∧ '/' ∉ base := by
  obtain ⟨p, hne, hp, rfl⟩ := h.segments
  obtain ⟨q, k, rfl⟩ := (List.eq_nil_or_concat' p).resolve_left hne
  refine ⟨if q = [] then [] else joinSegments q, k, ?_, (hp k (by simp)).noSlash⟩
  rw [joinSegments_append q (by simp)]
  simp [joinSegments]

section Replace

variable {fs : Ramfs} {path : CStr} {i : Nat}

/-- A file can be removed, and then there is nothing at its path. -/
theorem ramfsUnlink_file (h : RamfsOk fs) (hopen : ramfsOpen fs (some path) = some i)
    (hfile : fs.IsFile i) :
    ∃ fs', ramfsUnlink fs (some path) = (fs', 0) ∧ ramfsOpen fs' (some path) = none ∧
      (fs' i).inUse = false ∧ ∀ k, k ≠ i → fs' k = fs k := by
  unfold ramfsOpen at hopen
  cases hnorm : ramfsNormalize (some path) with
  | none =>
      rw [hnorm] at hopen
      cases hopen
  | some name =>
      rw [hnorm] at hopen
      dsimp only at hopen
      split_ifs at hopen with hroot
      refine ⟨Function.update fs i
        { fs i with inUse := false, isDir := false, name := [], size := 0 }, ?_, ?_, ?_,
        fun k hk => Function.update_of_ne hk ..⟩
      · unfold ramfsUnlink
        rw [hnorm]
        dsimp only
        rw [if_neg hroot, hopen]
        dsimp only
        rw [if_neg (by rw [hfile.2.2]; simp)]
      · rw [ramfsOpen_eq hnorm hroot]
        unfold ramfsFindName
        rw [List.find?_eq_none]
        obtain ⟨-, huse, hname⟩ := ramfsFindName_some hopen
        intro k hk
        by_cases hki : k = i
        · simp [hki]
        · rw [Function.update_of_ne hki]
          intro hfound
          rw [Bool.and_eq_true, beq_iff_eq] at hfound
          exact hki (h.tree.distinct k i (List.mem_range.mp hk) hfile.1 hfound.1 huse
            (hfound.2.trans hname.symm))
      · rw [Function.update_self]

/-- What was there can be created again. -/
theorem ramfsCreate_again (h : RamfsOk fs) (hopen : ramfsOpen fs (some path) = some i)
    (hfile : fs.IsFile i) {fs' : Ramfs} (h' : RamfsOk fs')
    (hgone : ramfsOpen fs' (some path) = none) (hfree : (fs' i).inUse = false)
    (hothers : ∀ k, k ≠ i → fs' k = fs k) :
    ∃ fs'' : Ramfs, ∃ j : Nat, ramfsCreate fs' (some path) = (fs'', (j : Int)) := by
  unfold ramfsOpen at hopen hgone
  cases hnorm : ramfsNormalize (some path) with
  | none =>
      rw [hnorm] at hopen
      cases hopen
  | some name =>
      rw [hnorm] at hopen hgone
      dsimp only at hopen hgone
      split_ifs at hopen hgone with hroot
      obtain ⟨hlt, huse, hname⟩ := ramfsFindName_some hopen
      obtain ⟨s, -, hs⟩ := Option.bind_eq_some_iff.mp hnorm
      obtain ⟨hcanon, hlen⟩ := normalizePath_canonical hs
      -- The directory it was in is another entry, so it is still there.
      have hparent : ramfsParentExists fs' name = true := by
        obtain ⟨dir, base, hsplit, hbase⟩ := (hcanon.resolve_left hroot).split
        unfold ramfsParentExists
        rw [pathParent_eq (hcanon.resolve_left hroot) hlen hsplit hbase]
        dsimp only
        by_cases hdir : dir = []
        · rw [if_pos hdir, if_pos rfl]
        rw [if_neg hdir]
        split_ifs
        · rfl
        obtain ⟨j, hj, huj, hdj, hnj⟩ :=
          (h.tree.parent i hlt huse dir base (hname.trans hsplit) hbase).resolve_left hdir
        have hji : j ≠ i := by
          rintro rfl
          rw [hfile.2.2] at hdj
          exact Bool.false_ne_true hdj
        have hfind : ramfsFindName fs' dir = some j := by
          rw [h'.tree.findName_iff, hothers j hji]
          exact ⟨hj, huj, hnj⟩
        rw [hfind]
        dsimp only
        rw [hothers j hji, hdj]
      obtain ⟨k, hk⟩ : ∃ k, ramfsFindFree fs' = some k := by
        cases hfound : ramfsFindFree fs' with
        | some k => exact ⟨k, rfl⟩
        | none =>
            have hall := List.find?_eq_none.mp hfound i (List.mem_range.mpr hlt)
            exact absurd (by simp [hfree]) hall
      unfold ramfsCreate
      rw [ramfsAdd_eq fs' hnorm, if_neg (by simp [hroot, hparent, hgone]), hk]
      exact ⟨_, k, rfl⟩

/-- A file that was just made holds the text that is put into it. -/
theorem ramfsWrite_new (h : RamfsOk fs) (hopen : ramfsOpen fs (some path) = some i)
    (hfile : fs.IsFile i) (hsize : (fs i).size = 0) (text : List UInt8)
    (hlen : text.length < ramfsFileCapacity) :
    ∃ fs' n, ramfsWrite fs i (ramfsFileSize fs i) text = some (fs', n) ∧ 0 ≤ n ∧
      ramfsOpen fs' (some path) = some i ∧ fs'.IsFile i ∧ (fs' i).content = text := by
  have hcap : ramfsFileCapacity = 4096 := rfl
  have hto : toWrite 0 text.length = text.length := by
    rw [toWrite_of_lt (by omega) (by omega)]
    omega
  have hempty : (fs i).content = [] := by
    rw [← List.length_eq_zero_iff, length_content, hsize]
  have hwrite : ramfsWrite fs i (ramfsFileSize fs i) text =
      some (Function.update fs i ((fs i).written 0 text), (text.length : Int)) := by
    rw [ramfsFileSize_eq hfile.1 hfile.2.1, hsize, h.write_eq hfile.1 hfile.2.1, hto, hfile.2.2,
      if_neg (by simp; omega), if_neg (by omega)]
  refine ⟨_, text.length, hwrite, Int.natCast_nonneg _, ?_, ?_, ?_⟩
  · rw [ramfsOpen_written, hopen]
  · unfold Ramfs.IsFile
    rw [Function.update_self]
    exact hfile
  · rw [Function.update_self, content_written_front _ hlen, hempty, List.drop_nil,
      List.append_nil]

end Replace

/-! ### The lines -/

section Lines

variable {others : OtherCommands} {s : Shell} {line arg : List UInt8} {i : Nat}

/-- The shell reads the line as a call of the entry with this text behind its name. -/
structure ReadsAs (line : List UInt8) (entry : Nat) (arg : List UInt8) : Prop where
  fits : FitsLine lightshellMaxLine line
  notEmpty : skipSpaces line ≠ []
  find : cmdFind (firstWord 32 (skipSpaces line)) = some entry
  arg : skipSpaces ((skipSpaces line).drop (firstWord 32 (skipSpaces line)).length) = arg

theorem ReadsAs.handleLine {entry : Nat} (h : ReadsAs line entry arg) :
    handleLine others s line = cmdHandler others s entry arg := by
  unfold BrightS.handleLine
  dsimp only
  rw [if_neg h.notEmpty, h.find]
  dsimp only
  rw [h.arg]

/-- A path from the root is the same in every directory. -/
theorem resolvePath_absolute (dir path : CStr) (hpath : charsOf (skipSpaces arg) = path)
    (hhead : path.head? = some '/') :
    resolvePath dir arg = lightshellNormalize path lightshellMaxPath := by
  have hne : path ≠ [] := by
    rintro rfl
    cases hhead
  unfold resolvePath
  dsimp only
  rw [hpath, if_neg hne, if_pos hhead]

theorem cmdHandler_rm : cmdHandler others s 25 arg = cmdRm s arg := by
  simp [cmdHandler, cmdNames]

theorem cmdHandler_append : cmdHandler others s 0 arg = cmdAppend s arg := by
  simp [cmdHandler, cmdNames]

theorem cmdHandler_login : cmdHandler others s 14 arg = cmdLogin s arg := by
  simp [cmdHandler, cmdNames]

def profileOfRoot : CStr := pathOf "/bin/config/root/example.pf"

/-- The path as a command is given it, and that it is that of the profile to all who read it. -/
structure IsProfilePath (arg : List UInt8) (path : CStr) : Prop where
  skip : skipSpaces arg = arg
  notEmpty : arg ≠ []
  chars : charsOf arg = path
  head : path.head? = some '/'
  lightshell : lightshellNormalize path lightshellMaxPath = some path
  normal : ramfsNormalize (some path) = some path
  notRoot : path ≠ ['/']
  user : userpfPath rootName 128 = some path

theorem profileOfRoot_is :
    IsProfilePath (textOf "/bin/config/root/example.pf") profileOfRoot := by
  constructor <;> decide +kernel

theorem resolvePath_profile (dir : CStr) :
    resolvePath dir (textOf "/bin/config/root/example.pf") = some profileOfRoot := by
  have h := profileOfRoot_is
  rw [resolvePath_absolute dir profileOfRoot (by rw [h.skip, h.chars]) h.head, h.lightshell]

def rmLine : List UInt8 := textOf "rm /bin/config/root/example.pf"
def appendLine : List UInt8 := textOf "append /bin/config/root/example.pf password:x"
def loginRootLine : List UInt8 := textOf "login root x"

/-- What the three lines, and the text that the second puts in the profile, say. -/
structure LinesSay : Prop where
  rm : ReadsAs rmLine 25 (textOf "/bin/config/root/example.pf")
  append : ReadsAs appendLine 0 (textOf "/bin/config/root/example.pf password:x")
  appendSkip : skipSpaces (textOf "/bin/config/root/example.pf password:x") =
    textOf "/bin/config/root/example.pf password:x"
  appendNotEmpty : textOf "/bin/config/root/example.pf password:x" ≠ []
  appendPath : firstWord lightshellMaxPath (textOf "/bin/config/root/example.pf password:x") =
    textOf "/bin/config/root/example.pf"
  appendText : skipSpaces ((textOf "/bin/config/root/example.pf password:x").drop
    (textOf "/bin/config/root/example.pf").length) = textOf "password:x"
  textNotEmpty : textOf "password:x" ≠ []
  textFits : (textOf "password:x").length < ramfsFileCapacity
  password : pfExtract (cStrOf ((textOf "password:x").take (lightshellMaxCfg - 1))) keyPassword
    lightshellMaxPass = some (textOf "x")
  loginNotEmpty : textOf "login" ≠ []
  loginFind : cmdFind (textOf "login") = some 14
  loginFits : FitsLine lightshellMaxLine loginRootLine
  account : loginLine loginRootLine = some (rootName, textOf "x")

theorem linesSay : LinesSay where
  rm := ⟨⟨by decide +kernel, by decide +kernel, by decide +kernel⟩, by decide +kernel,
    by decide +kernel, by decide +kernel⟩
  append := ⟨⟨by decide +kernel, by decide +kernel, by decide +kernel⟩, by decide +kernel,
    by decide +kernel, by decide +kernel⟩
  appendSkip := by decide +kernel
  appendNotEmpty := by decide +kernel
  appendPath := by decide +kernel
  appendText := by decide +kernel
  textNotEmpty := by decide +kernel
  textFits := by decide +kernel
  password := by decide +kernel
  loginNotEmpty := by decide +kernel
  loginFind := by decide +kernel
  loginFits := ⟨by decide +kernel, by decide +kernel, by decide +kernel⟩
  account := by decide +kernel

theorem rmLine_handled (hopen : ramfsOpen s.fs (some profileOfRoot) = some i)
    (h : RamfsOk s.fs) (hfile : s.fs.IsFile i) :
    ∃ s', s.step others rmLine s' ∧ RamfsOk s'.fs ∧
      ramfsOpen s'.fs (some profileOfRoot) = none ∧ (s'.fs i).inUse = false ∧
      ∀ k, k ≠ i → s'.fs k = s.fs k := by
  obtain ⟨fs', hunlink, hgone, hfree, hsame⟩ := ramfsUnlink_file h hopen hfile
  have hrun := filesRun_unlink s.fs (some profileOfRoot)
  rw [hunlink] at hrun
  refine ⟨{ s with fs := fs' }, ⟨linesSay.rm.fits, textOf "ok\n", ?_⟩, hrun.ok h, hgone, hfree,
    hsame⟩
  rw [linesSay.rm.handleLine, cmdHandler_rm]
  unfold cmdRm
  rw [profileOfRoot_is.skip]
  dsimp only
  rw [if_neg profileOfRoot_is.notEmpty, resolvePath_profile]
  dsimp only
  rw [hunlink]
  rfl

theorem appendLine_handled (h : RamfsOk s.fs)
    (hgone : ramfsOpen s.fs (some profileOfRoot) = none) {fs : Ramfs} {j : Nat}
    (hcreate : ramfsCreate s.fs (some profileOfRoot) = (fs, (j : Int))) :
    ∃ s' k, s.step others appendLine s' ∧ ramfsOpen s'.fs (some profileOfRoot) = some k ∧
      s'.fs.IsFile k ∧ (s'.fs k).content = textOf "password:x" := by
  obtain ⟨k, hk, hok, hfile, hopen, hdest⟩ := ramfsCreate_destination h hcreate (by omega)
  have hsize : (fs k).size = 0 := by
    rcases hdest with ⟨-, hthere⟩ | ⟨-, -, hsize, -⟩
    · rw [hgone] at hthere
      cases hthere
    · exact hsize
  obtain ⟨fs', n, hwrite, hn, hopen', hfile', hcontent⟩ := ramfsWrite_new hok hopen hfile hsize
    (textOf "password:x") linesSay.textFits
  refine ⟨{ s with fs := fs' }, k, ⟨linesSay.append.fits, textOf "ok\n", ?_⟩, hopen', hfile',
    hcontent⟩
  have hcreated : openOrCreate s.fs profileOfRoot = (fs, (k : Int)) := by
    unfold openOrCreate
    rw [hgone]
    dsimp only
    rw [hcreate, hk]
  have hdir : ramfsIsDirFd fs k = false := by
    rw [ramfsIsDirFd_eq hfile.1 hfile.2.1, hfile.2.2]
  rw [linesSay.append.handleLine, cmdHandler_append]
  unfold cmdAppend putText
  rw [linesSay.appendSkip]
  dsimp only
  rw [if_neg linesSay.appendNotEmpty, linesSay.appendPath, linesSay.appendText,
    if_neg (not_or.mpr ⟨profileOfRoot_is.notEmpty, linesSay.textNotEmpty⟩), resolvePath_profile]
  dsimp only
  rw [hcreated]
  dsimp only
  rw [if_neg (by omega), if_neg (by rw [hdir]; exact Bool.false_ne_true), hwrite]
  dsimp only
  rw [if_neg (by omega)]
  rfl

theorem rootPassword_of (hopen : ramfsOpen s.fs (some profileOfRoot) = some i)
    (hfile : s.fs.IsFile i) {text pass : List UInt8} (hcontent : (s.fs i).content = text)
    (hextract : pfExtract (cStrOf (text.take (lightshellMaxCfg - 1))) keyPassword
      lightshellMaxPass = some pass) :
    pfGetPassword s.fs rootName lightshellMaxPass = some pass := by
  have hread : pfRead s.fs rootName lightshellMaxCfg =
      some (cStrOf (text.take (lightshellMaxCfg - 1))) :=
    pfRead_eq_some_iff.mpr ⟨profileOfRoot, i, profileOfRoot_is.user, hopen, hfile, by rw [hcontent]⟩
  unfold pfGetPassword
  rw [hread]
  exact hextract

/-- Whoever has the password of a user can be that user. -/
theorem login_handled (hline : FitsLine lightshellMaxLine line) {user pass : List UInt8}
    (haccount : loginLine line = some (user, pass))
    (hpass : pfGetPassword s.fs user lightshellMaxPass = some pass) :
    s.step others line (s.login user) := by
  refine ⟨hline, textOf "login ok\n", ?_⟩
  unfold loginLine at haccount
  dsimp only at haccount
  split_ifs at haccount with hname
  set arg := skipSpaces ((skipSpaces line).drop (firstWord 32 (skipSpaces line)).length) with harg
  have hfits : FitsLine lightshellMaxLine arg := skipSpaces_fits
    ((skipSpaces_fits hline).suffix (List.drop_suffix _ _))
  cases hparse : parseAccount "usage: login <user> <pass>\n" arg with
  | error text =>
      rw [hparse] at haccount
      cases haccount
  | ok account =>
      rw [hparse] at haccount
      obtain rfl := Option.some.inj haccount
      obtain ⟨-, huser, -, -⟩ := parseAccount_ok hfits hparse
      have hcopy : strCopy lightshellMaxUser user = user :=
        List.take_of_length_le (by have := huser.length; omega)
      have hne : skipSpaces line ≠ [] := by
        intro hempty
        rw [hempty] at hname
        exact linesSay.loginNotEmpty hname.symm
      have hreads : ReadsAs line 14 arg :=
        ⟨hline, hne, by rw [hname, linesSay.loginFind], by rw [harg]⟩
      rw [hreads.handleLine, cmdHandler_login]
      unfold cmdLogin
      rw [hparse]
      dsimp only
      rw [hpass]
      dsimp only
      rw [if_neg (by simp), hcopy]
      rfl

/--
**Root by a password only.**  However a session has come to be that of root, one of its lines
logged in as root with the password that was in the profile of root at that moment.
-/
theorem root_by_password (hothers : OthersKeep others) {fs₀ fs : Ramfs}
    (hrun : FilesRun (ramfsInit fs₀) fs) {lines : List (List UInt8)} {s : Shell}
    (hsession : Executes (Shell.step others) (shellStart fs) lines s) (hroot : s.isRoot = true) :
    ∃ before line later s₁ s₂ pass, lines = before ++ line :: later ∧
      Executes (Shell.step others) (shellStart fs) before s₁ ∧ s₁.isRoot = false ∧
      s₁.step others line s₂ ∧ Executes (Shell.step others) s₂ later s ∧
      loginLine line = some (rootName, pass) ∧
      pfGetPassword s₁.fs rootName lightshellMaxPass = some pass := by
  have hok := shellStart_ok hrun
  have hguest : (shellStart fs).isRoot = false := rfl
  generalize shellStart fs = start at hok hguest hsession
  induction hsession with
  | nil => exact absurd hroot (by simp [hguest])
  | @cons start mid last line rest hstep hrest ih =>
      have hturns := Shell.step_turns hothers hok hstep
      cases hmid : mid.isRoot with
      | true =>
          obtain ⟨pass, hline, hpass⟩ := hturns.root hguest hmid
          exact ⟨[], line, rest, start, mid, pass, rfl, .nil _, hguest, hstep, hrest, hline, hpass⟩
      | false =>
          obtain ⟨before, line', later, s₁, s₂, pass, rfl, hbefore, hfound⟩ :=
            ih hroot (hturns.ok hok) hmid
          exact ⟨line :: before, line', later, s₁, s₂, pass, rfl, .cons hstep hbefore, hfound⟩

theorem rootPassword_at_boot {fs : Ramfs} (h : Laid fs bootLayout) :
    ∃ i, ramfsOpen fs (some profileOfRoot) = some i ∧ fs.IsFile i ∧
      pfGetPassword fs rootName lightshellMaxPass = some rootName := by
  obtain ⟨hi, huse, hname, hdir, hcontent⟩ := h.entry 29 _ bootLayout_is.profile
  have hopen : ramfsOpen fs (some profileOfRoot) = some 29 := by
    rw [ramfsOpen_eq profileOfRoot_is.normal profileOfRoot_is.notRoot, h.ok.tree.findName_iff]
    exact ⟨hi, huse, hname⟩
  refine ⟨29, hopen, ⟨hi, huse, hdir⟩, ?_⟩
  exact rootPassword_of (s := shellStart fs) hopen ⟨hi, huse, hdir⟩ hcontent (by decide +kernel)

theorem root_by_password_boot :
    ∃ s s₁ s₂ before line later pass,
      Executes (Shell.step quietCommands) s₁ (line :: later) s ∧ s₁.isRoot = false ∧
      s₁.step quietCommands line s₂ ∧ before ++ line :: later = [textOf "login root root"] ∧
      loginLine line = some (rootName, pass) ∧ s.isRoot = true := by
  obtain ⟨fs, -, hrun, hlaid⟩ := vfsInit_laid id blankRamfs
  obtain ⟨-, -, -, hpass⟩ := rootPassword_at_boot hlaid
  have hlogin : (shellStart fs).step quietCommands (textOf "login root root")
      ((shellStart fs).login rootName) :=
    login_handled ⟨by decide +kernel, by decide +kernel, by decide +kernel⟩
      (by decide +kernel) hpass
  have hroot : ((shellStart fs).login rootName).isRoot = true := by simp [Shell.login]
  obtain ⟨before, line, later, s₁, s₂, pass, hlines, -, hguest, hstep, hlater, hline, -⟩ :=
    root_by_password quietCommands_keep hrun (.cons hlogin (.nil _)) hroot
  exact ⟨_, s₁, s₂, before, line, later, pass, .cons hstep hlater, hguest, hstep, hlines.symm,
    hline, hroot⟩

/--
**Everyone can be root.**  However a session has got to where it is, whoever it is of and whatever
the password of root, as long as root has a profile three lines make the session that of root.
-/
theorem root_for_everyone (hothers : OthersKeep others) {fs₀ fs : Ramfs}
    (hrun : FilesRun (ramfsInit fs₀) fs) {lines : List (List UInt8)}
    (hsession : Executes (Shell.step others) (shellStart fs) lines s)
    (hopen : ramfsOpen s.fs (some profileOfRoot) = some i) (hfile : s.fs.IsFile i) :
    ∃ s', Executes (Shell.step others) s [rmLine, appendLine, loginRootLine] s' ∧
      s'.isRoot = true ∧ s'.currentUser = rootName := by
  have hkeeps : ∀ s line s', ShellOk s → Shell.step others s line s' → ShellOk s' :=
    fun _ _ _ h hstep => (Shell.step_turns hothers h hstep).ok h
  have hok : ShellOk s := hsession.invariant hkeeps (shellStart_ok hrun)
  obtain ⟨s₁, hrm, hok₁, hgone, hfree, hsame⟩ := rmLine_handled hopen hok.fs hfile
  obtain ⟨fs₂, j, hcreate⟩ := ramfsCreate_again hok.fs hopen hfile hok₁ hgone hfree hsame
  obtain ⟨s₂, k, happend, hopen₂, hfile₂, hcontent⟩ := appendLine_handled hok₁ hgone hcreate
  have hpass : pfGetPassword s₂.fs rootName lightshellMaxPass = some (textOf "x") :=
    rootPassword_of hopen₂ hfile₂ hcontent linesSay.password
  have hlogin : s₂.step others loginRootLine (s₂.login rootName) :=
    login_handled linesSay.loginFits linesSay.account hpass
  have hlines : Executes (Shell.step others) s [rmLine, appendLine, loginRootLine]
      (s₂.login rootName) := .cons hrm (.cons happend (.cons hlogin (.nil _)))
  refine ⟨_, hlines, ?_, ?_⟩
  · simp [Shell.login]
  · simp [Shell.login]

theorem root_for_everyone_boot :
    ∃ s s', Executes (Shell.step quietCommands) s [rmLine, appendLine, loginRootLine] s' ∧
      s.currentUser = guestName ∧ s'.isRoot = true := by
  obtain ⟨fs, -, hrun, hlaid⟩ := vfsInit_laid id blankRamfs
  obtain ⟨i, hopen, hfile, -⟩ := rootPassword_at_boot hlaid
  obtain ⟨s', hlines, hroot, -⟩ :=
    root_for_everyone quietCommands_keep hrun (.nil (shellStart fs)) hopen hfile
  exact ⟨shellStart fs, s', hlines, rfl, hroot⟩

end Lines

end BrightS
