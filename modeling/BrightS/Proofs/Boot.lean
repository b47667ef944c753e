/-
The file system that the kernel starts with.

The table has 32 entries, and `brights_vfs_init` makes 27 directories before the first file.  So the
first five files fill it: `boot_is_full` says that the rest of the texts and programs are never
there, that what the mounting of a disk notes down is not either, and that nothing can be made
until something has been removed.
-/
import BrightS.Kernel.Boot
import BrightS.Proofs.Shell

namespace BrightS

open Runs

/-! ### A table that is filled from the front -/

/-- What was put into an entry. -/
structure Seeded where
  name : CStr
  isDir : Bool
  content : List UInt8
  deriving DecidableEq

def RamfsFile.Holds (f : RamfsFile) (e : Seeded) : Prop :=
  f.inUse = true ∧ f.name = e.name ∧ f.isDir = e.isDir ∧ f.content = e.content

/-- These are in the first entries, and nothing is in the others. -/
structure Laid (fs : Ramfs) (l : List Seeded) : Prop where
  ok : RamfsOk fs
  entry : ∀ i e, l[i]? = some e → i < ramfsMaxFiles ∧ (fs i).Holds e
  free : ∀ i, l.length ≤ i → i < ramfsMaxFiles → (fs i).inUse = false

section Laid

variable {fs : Ramfs} {l : List Seeded} {name : CStr}

theorem laid_init (fs : Ramfs) : Laid (ramfsInit fs) [] :=
  ⟨ramfsOk_init fs, fun _ _ h => absurd h (by simp), fun _ _ _ => rfl⟩

theorem Laid.used (h : Laid fs l) {i : Nat} (hi : i < ramfsMaxFiles)
    (huse : (fs i).inUse = true) : ∃ e, l[i]? = some e ∧ (fs i).Holds e := by
  by_cases hlen : l.length ≤ i
  · rw [h.free i hlen hi] at huse
    cases huse
  · have hget : l[i]? = some l[i] := List.getElem?_eq_getElem (by omega)
    exact ⟨l[i], hget, (h.entry i _ hget).2⟩

/-- Names that are found are those that were put in. -/
theorem Laid.findName_isSome (h : Laid fs l) (name : CStr) :
    (ramfsFindName fs name).isSome ↔ name ∈ l.map Seeded.name := by
  rw [Option.isSome_iff_exists, List.mem_map]
  constructor
  · rintro ⟨i, hfind⟩
    obtain ⟨hi, huse, hname⟩ := ramfsFindName_some hfind
    obtain ⟨e, hget, -, hentry, -⟩ := h.used hi huse
    exact ⟨e, List.mem_of_getElem? hget, hentry ▸ hname⟩
  · rintro ⟨e, he, rfl⟩
    obtain ⟨i, hget⟩ := List.mem_iff_getElem?.mp he
    obtain ⟨hi, huse, hname, -⟩ := h.entry i e hget
    exact ⟨i, h.ok.tree.findName_iff.mpr ⟨hi, huse, hname⟩⟩

theorem Laid.findFree (h : Laid fs l) (hroom : l.length < ramfsMaxFiles) :
    ramfsFindFree fs = some l.length := by
  unfold ramfsFindFree
  rw [List.find?_range_eq_some]
  refine ⟨by simp [h.free l.length le_rfl hroom], by simpa using hroom, fun i hi => ?_⟩
  have huse := (h.entry i l[i] (List.getElem?_eq_getElem hi)).2.1
  simp [huse]

/-- The parent of a name is the root or a directory among these. -/
def hasParent (l : List Seeded) (name : CStr) : Bool :=
  match pathParent name ramfsMaxName with
  | none => false
  | some parent => parent = ['/'] || l.any fun e => e.isDir && e.name == parent

theorem Laid.parentExists (h : Laid fs l) (hparent : hasParent l name = true) :
    ramfsParentExists fs name = true := by
  unfold hasParent at hparent
  unfold ramfsParentExists
  cases hpath : pathParent name ramfsMaxName with
  | none =>
      rw [hpath] at hparent
      cases hparent
  | some parent =>
      rw [hpath] at hparent
      dsimp only at hparent ⊢
      by_cases hroot : parent = ['/']
      · rw [if_pos hroot]
      rw [if_neg hroot]
      simp only [hroot, decide_false, Bool.false_or, List.any_eq_true, Bool.and_eq_true,
        beq_iff_eq] at hparent
      obtain ⟨e, he, hdir, rfl⟩ := hparent
      obtain ⟨i, hget⟩ := List.mem_iff_getElem?.mp he
      obtain ⟨hi, huse, hname, hisdir, -⟩ := h.entry i e hget
      rw [h.ok.tree.findName_iff.mpr ⟨hi, huse, hname⟩]
      exact hisdir.trans hdir

/-- The entry behind the last one is taken. -/
theorem Laid.push (h : Laid fs l) (hroom : l.length < ramfsMaxFiles) {f : RamfsFile} {e : Seeded}
    (hok : RamfsOk (Function.update fs l.length f)) (hf : f.Holds e) :
    Laid (Function.update fs l.length f) (l ++ [e]) := by
  refine ⟨hok, fun i e' hget => ?_, fun i hlen hi => ?_⟩
  · rw [List.getElem?_append] at hget
    split_ifs at hget with hlt
    · rw [Function.update_of_ne (by omega)]
      exact h.entry i e' hget
    · rw [List.getElem?_singleton] at hget
      split_ifs at hget with hone
      obtain rfl := Option.some.inj hget
      obtain rfl : i = l.length := by omega
      rw [Function.update_self]
      exact ⟨hroom, hf⟩
  · rw [List.length_append, List.length_singleton] at hlen
    rw [Function.update_of_ne (by omega)]
    exact h.free i (by omega) hi

/-! ### A seed -/

/-- The name that a seed makes, when it makes one. -/
def seedName (l : List Seeded) (path : CStr) : Option CStr :=
  (ramfsNormalize (some path)).filter fun name =>
    name ≠ ['/'] && hasParent l name && !(l.map Seeded.name).contains name &&
      l.length < ramfsMaxFiles

theorem Laid.seedName (h : Laid fs l) {path : CStr} (hname : seedName l path = some name) :
    ramfsNormalize (some path) = some name ∧ name ≠ ['/'] ∧ ramfsFindName fs name = none ∧
      l.length < ramfsMaxFiles ∧ ∀ fill, ramfsAdd fs (some path) fill =
        (Function.update fs l.length (fill { fs l.length with name := name }),
          (l.length : Int)) := by
  obtain ⟨hnorm, hall⟩ := Option.filter_eq_some_iff.mp hname
  simp only [Bool.and_eq_true, decide_eq_true_eq, Bool.not_eq_true', List.contains_eq_mem,
    decide_eq_false_iff_not] at hall
  obtain ⟨⟨⟨hroot, hparent⟩, hnew⟩, hroom⟩ := hall
  have hnone : ramfsFindName fs name = none := by
    rw [← Option.not_isSome_iff_eq_none, h.findName_isSome]
    exact hnew
  refine ⟨hnorm, hroot, hnone, hroom, fun fill => ?_⟩
  rw [ramfsAdd_eq fs hnorm, if_neg (by simp [hroot, h.parentExists hparent, hnone]),
    h.findFree hroom]

/-- What a seed puts into the table. -/
def Seed.entry (name : CStr) : Seed → Seeded
  | .dir _ => ⟨name, true, []⟩
  | .file _ content => ⟨name, false, textOf content⟩

/-- The table as a list, behind a seed that makes its entry. -/
def Seed.lay (l : List Seeded) (s : Seed) : Option (List Seeded) :=
  (seedName l s.path).bind fun name =>
    if (s.entry name).content.length < ramfsFileCapacity then some (l ++ [s.entry name]) else none

theorem content_of_size {f : RamfsFile} (h : f.size = 0) : f.content = [] := by
  rw [← List.length_eq_zero_iff, length_content, h]

theorem Laid.seedDir (h : Laid fs l) {path : String}
    (hname : BrightS.seedName l (pathOf path) = some name) :
    FilesRun fs (seedDir fs (pathOf path)) ∧
      Laid (BrightS.seedDir fs (pathOf path)) (l ++ [⟨name, true, []⟩]) := by
  obtain ⟨hnorm, hroot, hnone, hroom, hadd⟩ := h.seedName hname
  have hstat : ramfsStat fs (some (pathOf path)) = none := by
    unfold ramfsStat
    rw [hnorm]
    dsimp only
    rw [if_neg hroot, hnone]
    rfl
  have hrun := filesRun_mkdir fs (some (pathOf path))
  have hok := hrun.ok h.ok
  unfold BrightS.seedDir
  rw [hstat, if_neg (by simp)]
  refine ⟨hrun, ?_⟩
  unfold ramfsMkdir at hok ⊢
  rw [hadd] at hok ⊢
  exact h.push hroom hok ⟨rfl, rfl, rfl, content_of_size rfl⟩

theorem Laid.seedFile (h : Laid fs l) {path : String} {text : List UInt8}
    (hname : BrightS.seedName l (pathOf path) = some name)
    (hlen : text.length < ramfsFileCapacity) :
    ∃ fs', seedFile fs (pathOf path) text = some fs' ∧ FilesRun fs fs' ∧
      Laid fs' (l ++ [⟨name, false, text⟩]) := by
  obtain ⟨hnorm, hroot, hnone, hroom, hadd⟩ := h.seedName hname
  have hcreate := hadd fun f =>
    ramfsInitFilePerms { f with size := 0, isDir := false, inUse := true } false
  set f : RamfsFile := ramfsInitFilePerms
    { fs l.length with name := name, size := 0, isDir := false, inUse := true } false with hf
  have hopen : openOrCreate fs (pathOf path) =
      (Function.update fs l.length f, (l.length : Int)) := by
    unfold openOrCreate
    rw [ramfsOpen_eq hnorm hroot, hnone]
    exact hcreate
  have hmid : FilesRun fs (Function.update fs l.length f) := by
    have hrun := filesRun_open fs (pathOf path)
    rwa [hopen] at hrun
  have hcap : ramfsFileCapacity = 4096 := rfl
  have hto : toWrite 0 text.length = text.length := by
    rw [toWrite_of_lt (by omega) (by omega)]
    omega
  have hwrite : ramfsWrite (Function.update fs l.length f) l.length 0 text =
      some (Function.update fs l.length (f.written 0 text), (text.length : Int)) := by
    rw [(hmid.ok h.ok).write_eq hroom (by rw [Function.update_self, hf]; rfl),
      Function.update_self, Function.update_idem, hto, hcap,
      if_neg (by rw [hf]; simp [ramfsInitFilePerms]), if_neg (by omega)]
  have hrun := hmid.trans (filesRun_write hwrite)
  refine ⟨_, ?_, hrun, h.push hroom (hrun.ok h.ok) ⟨rfl, rfl, rfl, ?_⟩⟩
  · unfold BrightS.seedFile
    rw [hopen]
    dsimp only
    rw [if_neg (by omega), hwrite]
    rfl
  · have hempty : f.content = [] := content_of_size rfl
    rw [content_written_front f hlen, hempty, List.drop_nil, List.append_nil]

theorem Laid.seed (h : Laid fs l) {s : Seed} {l' : List Seeded} (hlay : s.lay l = some l') :
    ∃ fs', s.run fs = some fs' ∧ FilesRun fs fs' ∧ Laid fs' l' := by
  obtain ⟨name, hname, hentry⟩ := Option.bind_eq_some_iff.mp hlay
  split_ifs at hentry with hlen
  obtain rfl := Option.some.inj hentry
  cases s with
  | dir path =>
      obtain ⟨hrun, hlaid⟩ := h.seedDir hname
      exact ⟨_, rfl, hrun, hlaid⟩
  | file path content => exact h.seedFile hname hlen

theorem Laid.seeds : ∀ {seeds : List Seed} {fs : Ramfs} {l l' : List Seeded}, Laid fs l →
    seeds.foldlM Seed.lay l = some l' →
    ∃ fs', runSeeds fs seeds = some fs' ∧ FilesRun fs fs' ∧ Laid fs' l'
  | [], fs, l, l', h, hlay => by
      obtain rfl := Option.some.inj hlay
      exact ⟨fs, rfl, .refl fs, h⟩
  | s :: rest, fs, l, l', h, hlay => by
      rw [List.foldlM_cons] at hlay
      obtain ⟨mid, hs, hrest⟩ := Option.bind_eq_some_iff.mp hlay
      obtain ⟨fs₁, hrun₁, hcalls₁, h₁⟩ := h.seed hs
      obtain ⟨fs₂, hrun₂, hcalls₂, h₂⟩ := Laid.seeds h₁ hrest
      refine ⟨fs₂, ?_, hcalls₁.trans hcalls₂, h₂⟩
      unfold runSeeds at hrun₂ ⊢
      rw [List.foldlM_cons, hrun₁]
      exact hrun₂

end Laid

/-! ### A full table -/

/-- An unlink, if any, fails. -/
def KeepsAll (fs : Ramfs) (c : RamfsCall) : Prop :=
  ∀ name, c = .unlink name → (ramfsUnlink fs name).2 < 0

/-- The names and what has them. -/
def SameNames (fs fs' : Ramfs) : Prop :=
  ∀ i, (fs' i).name = (fs i).name ∧ (fs' i).inUse = (fs i).inUse ∧ (fs' i).isDir = (fs i).isDir

/-- All entries are in use. -/
def FullTable (fs : Ramfs) : Prop := ∀ i, i < ramfsMaxFiles → (fs i).inUse = true

section Full

variable {fs mid fs' : Ramfs}

theorem SameNames.refl (fs : Ramfs) : SameNames fs fs := fun _ => ⟨rfl, rfl, rfl⟩

theorem SameNames.trans (h : SameNames fs mid) (h' : SameNames mid fs') : SameNames fs fs' :=
  fun i => ⟨(h' i).1.trans (h i).1, (h' i).2.1.trans (h i).2.1, (h' i).2.2.trans (h i).2.2⟩

theorem sameNames_update (fs : Ramfs) {i : Nat} {f : RamfsFile} (hname : f.name = (fs i).name)
    (huse : f.inUse = (fs i).inUse) (hdir : f.isDir = (fs i).isDir) :
    SameNames fs (Function.update fs i f) := by
  intro k
  by_cases hk : k = i
  · rw [hk, Function.update_self]
    exact ⟨hname, huse, hdir⟩
  · rw [Function.update_of_ne hk]
    exact ⟨rfl, rfl, rfl⟩

theorem sameNames_change (fs : Ramfs) (path : Option CStr) {change : RamfsFile → RamfsFile}
    (hkeep : ∀ f, (change f).name = f.name ∧ (change f).inUse = f.inUse ∧
      (change f).isDir = f.isDir) : SameNames fs (ramfsChange fs path change).1 := by
  rcases ramfsChange_cases fs path change with heq | ⟨-, i, -, -, -, heq⟩
  · rw [heq]
    exact .refl fs
  · rw [heq]
    exact sameNames_update fs (hkeep _).1 (hkeep _).2.1 (hkeep _).2.2

theorem sameNames_write {fd : Int} {off : Nat} {buf : List UInt8} {ret : Int}
    (hwrite : ramfsWrite fs fd off buf = some (fs', ret)) : SameNames fs fs' := by
  have hkeep : ∀ r : Int, some (fs, r) = some (fs', ret) → SameNames fs fs' := by
    intro r hr
    obtain ⟨rfl, -⟩ := Prod.mk.inj (Option.some.inj hr)
    exact .refl fs
  unfold ramfsWrite at hwrite
  dsimp only at hwrite
  generalize (if (fs fd.toNat).capacity < (off + buf.length) % 2 ^ 64 then
    (fs fd.toNat).capacity - off else buf.length) = n at hwrite
  split at hwrite
  · exact hkeep _ hwrite
  split at hwrite
  · exact hkeep _ hwrite
  split at hwrite
  · exact hkeep _ hwrite
  split at hwrite
  · cases hwrite
  · obtain ⟨rfl, -⟩ := Prod.mk.inj (Option.some.inj hwrite)
    exact sameNames_update fs rfl rfl rfl

theorem FullTable.same (h : FullTable fs) (hsame : SameNames fs fs') : FullTable fs' :=
  fun i hi => (hsame i).2.1.trans (h i hi)

theorem FullTable.add (h : FullTable fs) (path : Option CStr) (fill : RamfsFile → RamfsFile) :
    ramfsAdd fs path fill = (fs, -1) := by
  rcases ramfsAdd_cases fs path fill with heq | ⟨-, idx, -, -, -, -, -, hfree, -⟩
  · exact heq
  · obtain ⟨hlt, hunused⟩ := ramfsFindFree_some hfree
    rw [h idx hlt] at hunused
    cases hunused

/-- A call that removes nothing leaves the names of a full table as they are. -/
theorem FullTable.call (h : FullTable fs) {c : RamfsCall} {ret : Int} (hkeep : KeepsAll fs c)
    (hcall : fs.call c = some (fs', ret)) : SameNames fs fs' := by
  have hadd : ∀ path fill, some (ramfsAdd fs path fill) = some (fs', ret) → SameNames fs fs' := by
    intro path fill heq
    rw [h.add path fill] at heq
    obtain ⟨rfl, -⟩ := Prod.mk.inj (Option.some.inj heq)
    exact .refl fs
  have hchange : ∀ path change, (∀ f : RamfsFile, (change f).name = f.name ∧
      (change f).inUse = f.inUse ∧ (change f).isDir = f.isDir) →
      some (ramfsChange fs path change) = some (fs', ret) → SameNames fs fs' := by
    intro path change hsame heq
    have hchanged := sameNames_change fs path hsame
    rwa [Option.some.inj heq] at hchanged
  cases c with
  | mkdir name => exact hadd name _ hcall
  | create name => exact hadd name _ hcall
  | symlink target linkpath => exact hadd linkpath _ hcall
  | write fd off buf => exact sameNames_write hcall
  | chmod path mode => exact hchange path _ (by exact fun f => ⟨rfl, rfl, rfl⟩) hcall
  | chown path uid gid => exact hchange path _ (by exact fun f => ⟨rfl, rfl, rfl⟩) hcall
  | unlink name =>
      have hneg := hkeep name rfl
      rcases ramfsUnlink_cases fs name with heq | ⟨_, _, -, -, -, -, heq⟩
      · have hsame := heq.symm.trans (Option.some.inj hcall)
        exact (Prod.mk.inj hsame).1 ▸ .refl fs
      · rw [heq] at hneg
        exact absurd hneg (by simp)

theorem FullTable.run (h : FullTable fs) {calls : List RamfsCall}
    (hrun : Executes (Guarded KeepsAll Ramfs.step) fs calls fs') : SameNames fs fs' := by
  refine hrun.invariant (P := SameNames fs) (fun _ _ _ hsame hstep => ?_) (.refl fs)
  obtain ⟨hkeep, ret, hcall⟩ := hstep
  exact hsame.trans ((h.same hsame).call hkeep hcall)

theorem ramfsOpen_of_stat {path : Option CStr} (hstat : ramfsStat fs path = none) :
    ramfsOpen fs path = none := by
  unfold ramfsStat at hstat
  unfold ramfsOpen
  cases hnorm : ramfsNormalize path with
  | none => rfl
  | some name =>
      rw [hnorm] at hstat
      dsimp only at hstat ⊢
      split_ifs at hstat ⊢ with hroot
      exact Option.map_eq_none_iff.mp hstat

/-- What is not there cannot be seeded into a full table. -/
theorem FullTable.seed (h : FullTable fs) {s : Seed}
    (hnone : ramfsStat fs (some s.path) = none) : s.run fs = some fs := by
  cases s with
  | dir path =>
      have hmk : ramfsMkdir fs (some (pathOf path)) = (fs, -1) := h.add _ _
      have hstat : ramfsStat fs (some (pathOf path)) = none := hnone
      have hdir : seedDir fs (pathOf path) = fs := by
        unfold seedDir
        rw [hstat, if_neg (by simp), hmk]
      exact congrArg some hdir
  | file path content =>
      have hcreate : ramfsCreate fs (some (pathOf path)) = (fs, -1) := h.add _ _
      have hopen : openOrCreate fs (pathOf path) = (fs, -1) := by
        have hnothing : ramfsOpen fs (some (pathOf path)) = none := ramfsOpen_of_stat hnone
        unfold openOrCreate
        rw [hnothing]
        exact hcreate
      show seedFile fs (pathOf path) (textOf content) = some fs
      unfold seedFile
      rw [hopen]
      rfl

theorem FullTable.seeds (h : FullTable fs) {seeds : List Seed}
    (hnone : ∀ s ∈ seeds, ramfsStat fs (some s.path) = none) : runSeeds fs seeds = some fs := by
  unfold runSeeds
  induction seeds with
  | nil => rfl
  | cons s rest ih =>
      rw [List.foldlM_cons, h.seed (hnone s (List.mem_cons_self ..))]
      exact ih fun s' hs' => hnone s' (List.mem_cons_of_mem _ hs')

/-- What is there is what was put in. -/
theorem Laid.stat_isSome {l : List Seeded} (h : Laid fs l) (hsame : SameNames fs fs')
    (path : CStr) :
    (ramfsStat fs' (some path)).isSome ↔
      ∃ name, ramfsNormalize (some path) = some name ∧
        (name = ['/'] ∨ name ∈ l.map Seeded.name) := by
  unfold ramfsStat
  cases hnorm : ramfsNormalize (some path) with
  | none => simp
  | some name =>
      dsimp only
      by_cases hroot : name = ['/']
      · rw [if_pos hroot]
        simp [hroot]
      · have hfind : ramfsFindName fs' name = ramfsFindName fs name :=
          ramfsFindName_congr fun i _ => by rw [(hsame i).1, (hsame i).2.1]
        rw [if_neg hroot, Option.isSome_map, hfind, h.findName_isSome]
        simp [hroot]

/-- A path at which nothing was put in. -/
def vacant (l : List Seeded) (path : CStr) : Bool :=
  match ramfsNormalize (some path) with
  | none => true
  | some name => name ≠ ['/'] && !(l.map Seeded.name).contains name

theorem Laid.vacant {l : List Seeded} (h : Laid fs l) (hsame : SameNames fs fs') {path : CStr}
    (hvacant : vacant l path = true) : ramfsStat fs' (some path) = none := by
  rw [← Option.not_isSome_iff_eq_none, h.stat_isSome hsame]
  rintro ⟨name, hnorm, hthere⟩
  unfold BrightS.vacant at hvacant
  rw [hnorm] at hvacant
  simp only [Bool.and_eq_true, decide_eq_true_eq, Bool.not_eq_true', List.contains_eq_mem,
    decide_eq_false_iff_not] at hvacant
  exact hthere.elim hvacant.1 hvacant.2

theorem Laid.full {l : List Seeded} (h : Laid fs l) (hlen : l.length = ramfsMaxFiles) :
    FullTable fs :=
  fun i hi => (h.entry i l[i] (List.getElem?_eq_getElem (by omega))).2.1

theorem Laid.seeds_vacant {l : List Seeded} (h : Laid fs l) (hlen : l.length = ramfsMaxFiles)
    (hsame : SameNames fs fs') {seeds : List Seed}
    (hvacant : (seeds.map Seed.path).all (BrightS.vacant l) = true) :
    runSeeds fs' seeds = some fs' := by
  refine ((h.full hlen).same hsame).seeds fun s hs => h.vacant hsame ?_
  exact List.all_eq_true.mp hvacant _ (List.mem_map_of_mem hs)

end Full

/-! ### The table after the start -/

def bootLayout : List Seeded := (vfsDirs ++ vfsConfigs).map fun s => s.entry s.path

/--
What the entries of the start are: those that the seeds make, as many as the table has, with the
profile of root among them and nothing at the paths of the other texts.
-/
structure IsBootLayout (l : List Seeded) : Prop where
  laid : (vfsDirs ++ vfsConfigs).foldlM Seed.lay [] = some l
  length : l.length = ramfsMaxFiles
  profile : l[29]? = some ⟨pathOf "/bin/config/root/example.pf", false, textOf <|
    "username:root\nhostname:brights\navatar:\"default\"\nemail:root@local\n" ++
      "password:root\n"⟩
  texts (program : String → String) :
    ((vfsTexts program).map Seed.path).all (vacant l) = true
  mountTexts (rc : Int) (backend : Option String) :
    ((vfsMountTexts rc backend).map Seed.path).all (vacant l) = true

theorem bootLayout_is : IsBootLayout bootLayout := by
  refine ⟨by decide +kernel, by decide +kernel, by decide +kernel, fun program => ?_,
    fun rc backend => ?_⟩
  · have hpaths : (vfsTexts program).map Seed.path = (vfsTexts id).map Seed.path := rfl
    rw [hpaths]
    decide +kernel
  · have hpaths : (vfsMountTexts rc backend).map Seed.path =
        (vfsMountTexts 0 none).map Seed.path := rfl
    rw [hpaths]
    decide +kernel

/-- The table that the kernel makes, whatever was in its memory. -/
theorem vfsInit_laid (program : String → String) (fs₀ : Ramfs) :
    ∃ fs, vfsInit program fs₀ = some fs ∧ FilesRun (ramfsInit fs₀) fs ∧ Laid fs bootLayout := by
  obtain ⟨fs, hrun, hcalls, hlaid⟩ := (laid_init fs₀).seeds bootLayout_is.laid
  refine ⟨fs, ?_, hcalls, hlaid⟩
  have htexts := hlaid.seeds_vacant bootLayout_is.length (.refl fs) (bootLayout_is.texts program)
  unfold vfsInit runSeeds at *
  rw [List.foldlM_append, hrun]
  exact htexts

/--
**The table is full when the kernel has started.**  Whatever was in its memory, its 32 entries are
the 27 directories and the first five files, in this order; of the other texts and programs none is
there.  And whatever is called from then on, until something is removed nothing else is there,
every making of a directory, a file or a link fails, and the mounting of a disk leaves no note.
-/
theorem boot_is_full (program : String → String) (fs₀ : Ramfs) :
    ∃ fs, vfsInit program fs₀ = some fs ∧
      (∀ i, i < ramfsMaxFiles → ∃ e, bootLayout[i]? = some e ∧ (fs i).Holds e) ∧
      ∀ calls fs', Executes (Guarded KeepsAll Ramfs.step) fs calls fs' →
        (∀ path, (ramfsStat fs' (some path)).isSome ↔
          ∃ name, ramfsNormalize (some path) = some name ∧
            (name = ['/'] ∨ name ∈ bootLayout.map Seeded.name)) ∧
        (∀ path target, ramfsMkdir fs' path = (fs', -1) ∧ ramfsCreate fs' path = (fs', -1) ∧
          ramfsSymlink fs' target path = (fs', -1)) ∧
        ∀ rc backend, vfsMountExternal rc backend fs' = some fs' := by
  obtain ⟨fs, hinit, -, hlaid⟩ := vfsInit_laid program fs₀
  have hfull := hlaid.full bootLayout_is.length
  refine ⟨fs, hinit, fun i hi => hlaid.used hi (hfull i hi), fun calls fs' hrun => ?_⟩
  have hsame := hfull.run hrun
  have hfull' := hfull.same hsame
  exact ⟨fun path => hlaid.stat_isSome hsame path,
    fun path target => ⟨hfull'.add .., hfull'.add .., hfull'.add ..⟩,
    fun rc backend => hlaid.seeds_vacant bootLayout_is.length hsame
      (bootLayout_is.mountTexts rc backend)⟩

end BrightS
