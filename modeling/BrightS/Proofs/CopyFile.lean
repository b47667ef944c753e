/-
Copying a file in the shell.

After some rounds of the loop the destination holds the bytes of the source below the offset and
its own from there on (`fileCopied`).  That is the file of the source exactly if the destination was
not longer before: nothing cuts it off (`copy_file_path_equal_iff`).
-/
import BrightS.Kernel.Lightshell
import BrightS.Proofs.RamfsWrites

namespace BrightS

open Runs

/-! ### The loop -/

/-- The table after the bytes below `off` have been copied from entry `i` to entry `j`. -/
def fileCopied (fs : Ramfs) (i j off : Nat) : Ramfs :=
  Function.update fs j
    { fs j with
      data := fun o => if o < off then (fs i).data o else (fs j).data o
      size := max (fs j).size off }

variable {fs : Ramfs} {i j off : Nat}

theorem fileCopied_of_ne {k : Nat} (hk : k ≠ j) : fileCopied fs i j off k = fs k :=
  Function.update_of_ne hk ..

theorem fileCopied_self : fileCopied fs i j off j =
    { fs j with
      data := fun o => if o < off then (fs i).data o else (fs j).data o
      size := max (fs j).size off } :=
  Function.update_self ..

theorem fileCopied_zero (fs : Ramfs) (i j : Nat) : fileCopied fs i j 0 = fs := by
  unfold fileCopied
  simp

theorem ramfsOpen_fileCopied (fs : Ramfs) (i j off : Nat) (path : Option CStr) :
    ramfsOpen (fileCopied fs i j off) path = ramfsOpen fs path := by
  unfold fileCopied
  rw [ramfsOpen_update]
  · rfl
  · rfl

theorem isFile_fileCopied {k : Nat} : (fileCopied fs i j off).IsFile k ↔ fs.IsFile k := by
  unfold Ramfs.IsFile
  by_cases hk : k = j
  · rw [hk, fileCopied_self]
  · rw [fileCopied_of_ne hk]

/-- The source still has its bytes, also where it is the destination. -/
theorem fileCopied_source (hoff : off ≤ (fs i).size) :
    (fileCopied fs i j off i).data = (fs i).data ∧ (fileCopied fs i j off i).size = (fs i).size := by
  by_cases hij : i = j
  · rw [← hij, fileCopied_self]
    refine ⟨?_, max_eq_left hoff⟩
    funext o
    exact ite_self _
  · rw [fileCopied_of_ne hij]
    exact ⟨rfl, rfl⟩

theorem RamfsOk.fileCopied (h : RamfsOk fs) (hoff : off ≤ ramfsFileCapacity) :
    RamfsOk (fileCopied fs i j off) := by
  refine h.update (h.tree.congr fun k => ?_) rfl (max_le (h.size j) hoff)
  by_cases hk : k = j
  · rw [hk, Function.update_self]
    exact ⟨rfl, rfl, rfl⟩
  · rw [Function.update_of_ne hk]
    exact ⟨rfl, rfl, rfl⟩

/-- What a round reads. -/
theorem fileCopied_read (hfile : fs.IsFile i) (hoff : off < (fs i).size) :
    ramfsRead (fileCopied fs i j off) i off 256 =
      (((min 256 ((fs i).size - off) : Nat) : Int),
        (List.range (min 256 ((fs i).size - off))).map fun k => (fs i).data (off + k)) := by
  obtain ⟨hdata, hsize⟩ := fileCopied_source (j := j) (Nat.le_of_lt hoff)
  rw [ramfsRead_file (isFile_fileCopied.mpr hfile), hdata, hsize]

/-- The bytes that a round copies. -/
def chunk (fs : Ramfs) (i off n : Nat) : List UInt8 :=
  (List.range n).map fun k => (fs i).data (off + k)

@[simp] theorem length_chunk (fs : Ramfs) (i off n : Nat) : (chunk fs i off n).length = n := by
  simp [chunk]

theorem storeBytes_chunk (n : Nat) :
    storeBytes (fun o => if o < off then (fs i).data o else (fs j).data o) off (chunk fs i off n) =
      fun o => if o < off + n then (fs i).data o else (fs j).data o := by
  funext o
  rw [storeBytes_apply, length_chunk]
  by_cases ho : off ≤ o ∧ o < off + n
  · have hlt : o - off < (chunk fs i off n).length := by
      rw [length_chunk]
      omega
    rw [if_pos ho, if_pos ho.2, List.getD_eq_getElem _ _ hlt]
    simp [chunk, Nat.add_sub_cancel' ho.1]
  · rw [if_neg ho]
    by_cases hlow : o < off
    · rw [if_pos hlow, if_pos (by omega)]
    · rw [if_neg hlow, if_neg (by omega)]

/-- What a round writes. -/
theorem fileCopied_write (h : RamfsOk fs) (hfile : fs.IsFile j) {n : Nat} (hn : 0 < n)
    (hend : off + n ≤ ramfsFileCapacity) :
    ramfsWrite (fileCopied fs i j off) j off (chunk fs i off n) =
      some (fileCopied fs i j (off + n), (n : Int)) := by
  have hcap : ramfsFileCapacity = 4096 := rfl
  have hok : RamfsOk (fileCopied fs i j off) := h.fileCopied (by omega)
  have hfile' : (fileCopied fs i j off).IsFile j := isFile_fileCopied.mpr hfile
  obtain ⟨hlt, huse, hdir⟩ := hfile'
  have hto : toWrite off n = n := by
    rw [toWrite_of_lt (by omega) (by omega)]
    omega
  have hentry : (fileCopied fs i j off j).written off (chunk fs i off n) =
      fileCopied fs i j (off + n) j := by
    have htake : (chunk fs i off n).take n = chunk fs i off n :=
      List.take_of_length_le (Nat.le_of_eq (length_chunk ..))
    unfold RamfsFile.written
    rw [length_chunk, hto, htake, fileCopied_self, fileCopied_self]
    dsimp only
    rw [storeBytes_chunk, max_assoc, max_eq_right (Nat.le_add_right off n)]
  have hstate : Function.update (fileCopied fs i j off) j (fileCopied fs i j (off + n) j) =
      fileCopied fs i j (off + n) := by
    rw [fileCopied_self]
    exact Function.update_idem ..
  rw [hok.write_eq hlt huse, length_chunk, hto, hdir, if_neg (by simp; omega), if_neg (by omega),
    hentry, hstate]

/-- The loop copies what is left. -/
theorem copyFileLoop_run (h : RamfsOk fs) (hi : fs.IsFile i) (hj : fs.IsFile j) (fuel : Nat) :
    ∀ {off : Nat}, off ≤ (fs i).size → (fs i).size - off ≤ fuel →
      copyFileLoop i j (fs i).size fuel (fileCopied fs i j off) off =
        some (fileCopied fs i j (fs i).size, 0) := by
  have hcap := h.size i
  induction fuel with
  | zero =>
      intro off hoff hfuel
      obtain rfl : off = (fs i).size := by omega
      rw [copyFileLoop, if_neg (by omega)]
  | succ fuel ih =>
      intro off hoff hfuel
      rw [copyFileLoop]
      by_cases hend : off < (fs i).size
      · obtain ⟨n, hn⟩ : ∃ n, n = min 256 ((fs i).size - off) := ⟨_, rfl⟩
        have hround : copyFileLoop i j (fs i).size fuel (fileCopied fs i j (off + n)) (off + n) =
            some (fileCopied fs i j (fs i).size, 0) := ih (by omega) (by omega)
        have hwrite : ramfsWrite (fileCopied fs i j off) j off (chunk fs i off n) =
            some (fileCopied fs i j (off + n), (n : Int)) :=
          fileCopied_write h hj (by omega) (by omega)
        rw [if_pos hend, fileCopied_read hi hend, ← hn]
        unfold chunk at hwrite
        simp only [hwrite]
        rw [if_neg (by omega), if_neg (by simp)]
        exact hround
      · obtain rfl : off = (fs i).size := by omega
        rw [if_neg (by omega)]

/-! ### The whole call -/

theorem copyFileLoop_start (h : RamfsOk fs) (hi : fs.IsFile i) (hj : fs.IsFile j) :
    copyFileLoop i j (ramfsFileSize fs i) (ramfsFileSize fs i) fs 0 =
      some (fileCopied fs i j (fs i).size, 0) := by
  have hrun := copyFileLoop_run h hi hj (fs i).size (Nat.zero_le _) (Nat.le_of_eq (Nat.sub_zero _))
  rw [fileCopied_zero] at hrun
  rw [ramfsFileSize_eq hi.1 hi.2.1]
  exact hrun

theorem isFile_of_not_dirFd {path : Option CStr} (hopen : ramfsOpen fs path = some i)
    (hdir : ¬ ramfsIsDirFd fs i = true) : fs.IsFile i := by
  obtain ⟨hlt, huse⟩ := ramfsOpen_some hopen
  rw [ramfsIsDirFd_eq hlt huse, Bool.not_eq_true] at hdir
  exact ⟨hlt, huse, hdir⟩

/-- The destination is there, or has just been created. -/
def Destination (fs fs₁ : Ramfs) (dst : Option CStr) (j : Nat) : Prop :=
  (fs₁ = fs ∧ ramfsOpen fs dst = some j) ∨
    (ramfsOpen fs dst = none ∧ (fs j).inUse = false ∧ (fs₁ j).size = 0 ∧
      ∀ k, k ≠ j → fs₁ k = fs k)

/-- A new file is in an entry that was free, and its path leads there. -/
theorem ramfsCreate_destination (h : RamfsOk fs) {dst : Option CStr} {fs₁ : Ramfs} {r : Int}
    (hcreate : ramfsCreate fs dst = (fs₁, r)) (hr : ¬ r < 0) :
    ∃ j : Nat, r = j ∧ RamfsOk fs₁ ∧ fs₁.IsFile j ∧ ramfsOpen fs₁ dst = some j ∧
      Destination fs fs₁ dst j := by
  have hok : RamfsOk (ramfsCreate fs dst).1 := h.add dst fun _ => ⟨rfl, rfl, rfl⟩
  rcases ramfsCreate_cases fs dst with
    heq | ⟨name, idx, f, hnorm, hroot, hnew, hfree, ⟨hname, huse, hdir, hsize⟩, heq⟩
  · rw [heq] at hcreate
    obtain ⟨-, rfl⟩ := Prod.mk.inj hcreate
    exact absurd (by decide) hr
  · rw [hcreate] at heq hok
    obtain ⟨rfl, rfl⟩ := Prod.mk.inj heq
    obtain ⟨hlt, hunused⟩ := ramfsFindFree_some hfree
    have htree : RamfsTree (Function.update fs idx f) := hok.tree
    have hself : Function.update fs idx f idx = f := Function.update_self ..
    refine ⟨idx, rfl, hok, ⟨hlt, by rw [hself, huse], by rw [hself, hdir]⟩, ?_, .inr ⟨?_, hunused,
      by rw [hself, hsize], fun k hk => Function.update_of_ne hk ..⟩⟩
    · rw [ramfsOpen_eq hnorm hroot, htree.findName_iff, hself]
      exact ⟨hlt, huse, hname⟩
    · rw [ramfsOpen_eq hnorm hroot, hnew]

theorem copyFilePath_existing (h : RamfsOk fs) {src dst : Option CStr}
    (hsrc : ramfsOpen fs src = some i) (hi : fs.IsFile i) (hdst : ramfsOpen fs dst = some j)
    (hj : fs.IsFile j) : copyFilePath fs src dst = some (fileCopied fs i j (fs i).size, 0) := by
  have hidir : ¬ ramfsIsDirFd fs i = true := by
    rw [ramfsIsDirFd_eq hi.1 hi.2.1, hi.2.2]
    exact Bool.false_ne_true
  have hjdir : ¬ ramfsIsDirFd fs j = true := by
    rw [ramfsIsDirFd_eq hj.1 hj.2.1, hj.2.2]
    exact Bool.false_ne_true
  unfold copyFilePath
  rw [hsrc, hdst]
  dsimp only
  rw [if_neg hidir, if_neg hjdir, copyFileLoop_start h hi hj]

/-- The call fails, or copies the bytes of the file at `src` to the file at `dst`. -/
theorem copyFilePath_cases (h : RamfsOk fs) (src dst : Option CStr) :
    (∃ fs', copyFilePath fs src dst = some (fs', -1)) ∨
      ∃ i j fs₁, ramfsOpen fs src = some i ∧ ramfsOpen fs₁ dst = some j ∧
        (fs i).inUse = true ∧ fs₁.IsFile i ∧ Destination fs fs₁ dst j ∧
        copyFilePath fs src dst = some (fileCopied fs₁ i j (fs₁ i).size, 0) := by
  cases hsrc : ramfsOpen fs src with
  | none =>
      refine .inl ⟨fs, ?_⟩
      unfold copyFilePath
      rw [hsrc]
  | some i =>
      by_cases hidir : ramfsIsDirFd fs i = true
      · refine .inl ⟨fs, ?_⟩
        unfold copyFilePath
        rw [hsrc]
        exact if_pos hidir
      have hi := isFile_of_not_dirFd hsrc hidir
      cases hdst : ramfsOpen fs dst with
      | some j =>
          by_cases hjdir : ramfsIsDirFd fs j = true
          · refine .inl ⟨fs, ?_⟩
            unfold copyFilePath
            rw [hsrc, hdst]
            dsimp only
            rw [if_neg hidir, if_pos hjdir]
          · have hcopy := copyFilePath_existing h hsrc hi hdst (isFile_of_not_dirFd hdst hjdir)
            exact .inr ⟨i, j, fs, rfl, hdst, hi.2.1, hi, .inl ⟨rfl, hdst⟩, hcopy⟩
      | none =>
          unfold copyFilePath
          rw [hsrc, hdst]
          dsimp only
          rw [if_neg hidir]
          obtain ⟨fs₁, r, hcreate⟩ : ∃ fs₁ r, ramfsCreate fs dst = (fs₁, r) := ⟨_, _, rfl⟩
          rw [hcreate]
          dsimp only
          by_cases hr : r < 0
          · rw [if_pos hr]
            exact .inl ⟨fs₁, rfl⟩
          obtain ⟨j, rfl, hok, hj, hopen, hdest⟩ := ramfsCreate_destination h hcreate hr
          have hi₁ : fs₁.IsFile i := by
            rcases hdest with ⟨rfl, -⟩ | ⟨-, hfree, -, hsame⟩
            · exact hi
            · have hij : i ≠ j := by
                intro hij
                have huse := hi.2.1
                rw [hij, hfree] at huse
                exact Bool.false_ne_true huse
              unfold Ramfs.IsFile
              rw [hsame i hij]
              exact hi
          rw [if_neg hr, copyFileLoop_start hok hi₁ hj]
          exact .inr ⟨i, j, fs₁, rfl, hopen, hi.2.1, hi₁, hdest, rfl⟩

/-! ### Equal files -/

/-- The file at `dst` is now that at `src`, and no other entry has changed. -/
def CopyEqual (fs fs' : Ramfs) (src dst : Option CStr) : Prop :=
  ∃ i j, ramfsOpen fs src = some i ∧ ramfsOpen fs' dst = some j ∧
    (fs' j).content = (fs i).content ∧ ∀ k, k ≠ j → fs' k = fs k

/-- The destination is new, or not longer than the source. -/
def DestinationFits (fs : Ramfs) (src dst : Option CStr) : Prop :=
  ∀ i j, ramfsOpen fs src = some i → ramfsOpen fs dst = some j → (fs j).size ≤ (fs i).size

/-- The copy has the content of the source as soon as it has its size. -/
theorem content_fileCopied_iff :
    (fileCopied fs i j (fs i).size j).content = (fs i).content ↔ (fs j).size ≤ (fs i).size := by
  constructor
  · intro heq
    have hlen := congrArg List.length heq
    rw [length_content, length_content, fileCopied_self] at hlen
    exact max_eq_right_iff.mp hlen
  · intro hle
    have hsize : (fileCopied fs i j (fs i).size j).size = (fs i).size := by
      rw [fileCopied_self]
      exact max_eq_right hle
    rw [content_eq_iff hsize, hsize, fileCopied_self]
    intro o ho
    exact if_pos ho

theorem copyEqual_iff {src dst : Option CStr} {fs₁ : Ramfs} (hsrc : ramfsOpen fs src = some i)
    (huse : (fs i).inUse = true) (hdst : ramfsOpen fs₁ dst = some j)
    (hdest : Destination fs fs₁ dst j) :
    CopyEqual fs (fileCopied fs₁ i j (fs₁ i).size) src dst ↔ DestinationFits fs src dst := by
  have hopen : ramfsOpen (fileCopied fs₁ i j (fs₁ i).size) dst = some j := by
    rw [ramfsOpen_fileCopied, hdst]
  have hsame : ∀ k, k ≠ j → fileCopied fs₁ i j (fs₁ i).size k = fs k := by
    intro k hk
    rw [fileCopied_of_ne hk]
    rcases hdest with ⟨rfl, -⟩ | ⟨-, -, -, hsame⟩
    · rfl
    · exact hsame k hk
  have hentry : fs₁ i = fs i := by
    rcases hdest with ⟨rfl, -⟩ | ⟨-, hfree, -, hsame⟩
    · rfl
    · refine hsame i fun hij => ?_
      rw [hij, hfree] at huse
      exact Bool.false_ne_true huse
  have hequal : CopyEqual fs (fileCopied fs₁ i j (fs₁ i).size) src dst ↔
      (fs₁ j).size ≤ (fs₁ i).size := by
    rw [← content_fileCopied_iff]
    constructor
    · rintro ⟨i', j', hi', hj', heq, -⟩
      obtain rfl : i = i' := Option.some.inj (hsrc.symm.trans hi')
      obtain rfl : j = j' := Option.some.inj (hopen.symm.trans hj')
      rw [heq, hentry]
    · intro heq
      refine ⟨i, j, hsrc, hopen, ?_, hsame⟩
      rw [heq, hentry]
  rw [hequal, hentry]
  rcases hdest with ⟨rfl, hold⟩ | ⟨hnone, -, hsize, -⟩
  · constructor
    · intro hle i' j' hi' hj'
      obtain rfl : i = i' := Option.some.inj (hsrc.symm.trans hi')
      obtain rfl : j = j' := Option.some.inj (hold.symm.trans hj')
      exact hle
    · intro hfits
      exact hfits i j hsrc hold
  · rw [hsize]
    refine iff_of_true (Nat.zero_le _) fun _ _ _ hj' => ?_
    rw [hnone] at hj'
    cases hj'

/--
**When copying makes equal files.**  After every run a copy ends.  If it succeeds, the destination
has the content of the source and everything else is as before exactly if the destination is new,
or was not longer than the source.
-/
theorem copy_file_path_equal_iff {fs₀ : Ramfs} {calls : List RamfsCall} {fs : Ramfs}
    (hrun : Executes Ramfs.step (ramfsInit fs₀) calls fs) (src dst : Option CStr) :
    ∃ fs' ret, copyFilePath fs src dst = some (fs', ret) ∧
      (ret = 0 → (CopyEqual fs fs' src dst ↔ DestinationFits fs src dst)) := by
  rcases copyFilePath_cases (ramfsOk_of_run hrun) src dst with
    ⟨fs', hfail⟩ | ⟨i, j, fs₁, hsrc, hdst, huse, -, hdest, hcopy⟩
  · exact ⟨fs', -1, hfail, fun hret => absurd hret (by decide)⟩
  · exact ⟨_, 0, hcopy, fun _ => copyEqual_iff hsrc huse hdst hdest⟩

/-- A file of one byte and one of two. -/
def twoFilesRamfs : Ramfs :=
  let fs := ((ramfsWrite oneFileRamfs 0 0 [1]).map Prod.fst).getD oneFileRamfs
  let fs := (ramfsCreate fs (some ['/', 'b'])).1
  ((ramfsWrite fs 1 0 [2, 3]).map Prod.fst).getD fs

theorem twoFilesRamfs_run :
    Executes Ramfs.step (ramfsInit blankRamfs)
      [.create (some ['/', 'a']), .write 0 0 [1], .create (some ['/', 'b']), .write 1 0 [2, 3]]
      twoFilesRamfs :=
  .cons ⟨_, rfl⟩ (.cons ⟨_, rfl⟩ (.cons ⟨_, rfl⟩ (.cons ⟨_, rfl⟩ (.nil _))))

theorem twoFilesRamfs_files :
    twoFilesRamfs.IsFile 0 ∧ twoFilesRamfs.IsFile 1 ∧
      ramfsOpen twoFilesRamfs (some ['/', 'a']) = some 0 ∧
      ramfsOpen twoFilesRamfs (some ['/', 'b']) = some 1 ∧
      (twoFilesRamfs 0).size = 1 ∧ (twoFilesRamfs 1).size = 2 := by
  unfold Ramfs.IsFile
  decide +kernel

/-- The longer file onto the shorter one. -/
theorem copy_file_path_equal_longer :
    ∃ fs', copyFilePath twoFilesRamfs (some ['/', 'b']) (some ['/', 'a']) = some (fs', 0) ∧
      CopyEqual twoFilesRamfs fs' (some ['/', 'b']) (some ['/', 'a']) := by
  obtain ⟨ha, hb, hopena, hopenb, hsizea, hsizeb⟩ := twoFilesRamfs_files
  have hcopy := copyFilePath_existing (ramfsOk_of_run twoFilesRamfs_run) hopenb hb hopena ha
  obtain ⟨fs', ret, hcall, hequal⟩ :=
    copy_file_path_equal_iff twoFilesRamfs_run (some ['/', 'b']) (some ['/', 'a'])
  obtain ⟨rfl, rfl⟩ := Prod.mk.inj (Option.some.inj (hcall.symm.trans hcopy))
  refine ⟨_, hcall, (hequal rfl).mpr fun i j hi hj => ?_⟩
  obtain rfl : 1 = i := Option.some.inj (hopenb.symm.trans hi)
  obtain rfl : 0 = j := Option.some.inj (hopena.symm.trans hj)
  rw [hsizea, hsizeb]
  decide

/-- The shorter file onto the longer one, which keeps its second byte. -/
theorem copy_file_path_keeps_tail :
    ∃ fs', copyFilePath twoFilesRamfs (some ['/', 'a']) (some ['/', 'b']) = some (fs', 0) ∧
      (fs' 1).content = [1, 3] ∧
      ¬ CopyEqual twoFilesRamfs fs' (some ['/', 'a']) (some ['/', 'b']) := by
  obtain ⟨ha, hb, hopena, hopenb, hsizea, hsizeb⟩ := twoFilesRamfs_files
  refine ⟨_, copyFilePath_existing (ramfsOk_of_run twoFilesRamfs_run) hopena ha hopenb hb, ?_, ?_⟩
  · rw [hsizea]
    rfl
  · rw [copyEqual_iff hopena ha.2.1 hopenb (.inl ⟨rfl, hopenb⟩)]
    intro hfits
    have hle := hfits 0 1 hopena hopenb
    rw [hsizea, hsizeb] at hle
    exact absurd hle (by decide)

end BrightS
