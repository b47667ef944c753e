/-
The entries of the RAM file system as files.

`RamfsOk` is what the tables of all histories have in common: a tree of names, with sizes
inside the storage.  What a read returns and what a write leaves is said here in terms of
the content of the entry (`ramfsRead_content`, `RamfsOk.write_eq`).
-/
import BrightS.Lib.Cursors
import BrightS.Proofs.Ramfs

namespace BrightS

open Cursors Runs

/-- What the tables of all histories have in common. -/
structure RamfsOk (fs : Ramfs) : Prop where
  tree : RamfsTree fs
  capacity : ∀ i, (fs i).capacity = ramfsFileCapacity
  size : ∀ i, (fs i).size ≤ ramfsFileCapacity

/-- The bytes of an entry. -/
def RamfsFile.content (f : RamfsFile) : List UInt8 := (List.range f.size).map f.data

@[simp] theorem length_content (f : RamfsFile) : f.content.length = f.size := by
  simp [RamfsFile.content]

theorem getElem_content (f : RamfsFile) {o : Nat} (ho : o < f.content.length) :
    f.content[o] = f.data o := by
  simp [RamfsFile.content]

theorem getD_content (f : RamfsFile) (o : Nat) :
    f.content.getD o 0 = if o < f.size then f.data o else 0 := by
  by_cases ho : o < f.size
  · rw [if_pos ho, List.getD_eq_getElem f.content 0 (by rw [length_content]; exact ho),
      getElem_content]
  · rw [if_neg ho, List.getD_eq_default f.content 0 (by rw [length_content]; omega)]

/-- Two entries have the same content when their bytes are the same one by one. -/
theorem content_eq_iff {f g : RamfsFile} (hsize : f.size = g.size) :
    f.content = g.content ↔ ∀ o, o < f.size → f.data o = g.data o := by
  unfold RamfsFile.content
  rw [← hsize, List.map_inj_left]
  simp

/-! ### Looking up -/

theorem RamfsTree.findName_iff {fs : Ramfs} (h : RamfsTree fs) {name : CStr} {idx : Nat} :
    ramfsFindName fs name = some idx ↔
      idx < ramfsMaxFiles ∧ (fs idx).inUse = true ∧ (fs idx).name = name := by
  refine ⟨ramfsFindName_some, fun hidx => ?_⟩
  obtain ⟨hlt, huse, hname⟩ := hidx
  cases hfind : ramfsFindName fs name with
  | none => exact absurd hname (ramfsFindName_none hfind hlt huse)
  | some i =>
      obtain ⟨hi, hui, hni⟩ := ramfsFindName_some hfind
      rw [h.distinct i idx hi hlt hui huse (hni.trans hname.symm)]

/-- Looking for a name looks at names and use only. -/
theorem ramfsFindName_congr {fs fs' : Ramfs} {name : CStr}
    (hsame : ∀ i, i < ramfsMaxFiles → (((fs' i).inUse = true ∧ (fs' i).name = name) ↔
      ((fs i).inUse = true ∧ (fs i).name = name))) :
    ramfsFindName fs' name = ramfsFindName fs name := by
  unfold ramfsFindName
  apply List.find?_congr
  intro i hi
  have hiff := hsame i (List.mem_range.mp hi)
  rw [Bool.eq_iff_iff]
  simpa using hiff

theorem ramfsOpen_some {fs : Ramfs} {name : Option CStr} {idx : Nat}
    (hopen : ramfsOpen fs name = some idx) : idx < ramfsMaxFiles ∧ (fs idx).inUse = true := by
  unfold ramfsOpen at hopen
  split at hopen
  · exact absurd hopen (by simp)
  · split_ifs at hopen
    obtain ⟨hidx, huse, -⟩ := ramfsFindName_some hopen
    exact ⟨hidx, huse⟩

theorem ramfsOpen_eq {fs : Ramfs} {path : Option CStr} {name : CStr}
    (hnorm : ramfsNormalize path = some name) (hroot : name ≠ ['/']) :
    ramfsOpen fs path = ramfsFindName fs name := by
  unfold ramfsOpen
  rw [hnorm]
  exact if_neg hroot

/-- An empty file of this name. -/
def RamfsFile.EmptyFile (f : RamfsFile) (name : CStr) : Prop :=
  f.name = name ∧ f.inUse = true ∧ f.isDir = false ∧ f.size = 0

/-- A creation fails and does nothing, or puts an empty file of a new name into a free entry. -/
theorem ramfsCreate_cases (fs : Ramfs) (path : Option CStr) :
    ramfsCreate fs path = (fs, -1) ∨
      ∃ name idx f, ramfsNormalize path = some name ∧ name ≠ ['/'] ∧
        ramfsFindName fs name = none ∧ ramfsFindFree fs = some idx ∧ f.EmptyFile name ∧
        ramfsCreate fs path = (Function.update fs idx f, (idx : Int)) := by
  unfold ramfsCreate
  rcases ramfsAdd_cases fs path _ with
    heq | ⟨name, idx, hnorm, hcanon, -, -, hnew, hfree, heq⟩
  · exact .inl heq
  · have hroot : name ≠ ['/'] := fun h => not_canonicalName_root (h ▸ hcanon)
    exact .inr ⟨name, idx, _, hnorm, hroot, hnew, hfree, ⟨rfl, rfl, rfl, rfl⟩, heq⟩

/-! ### Every call keeps the table in order -/

theorem ramfsOk_init (fs : Ramfs) : RamfsOk (ramfsInit fs) :=
  ⟨ramfsTree_init fs, fun _ => rfl, fun _ => Nat.zero_le _⟩

/-- One entry is replaced by one that fits. -/
theorem RamfsOk.update {fs : Ramfs} (h : RamfsOk fs) {idx : Nat} {f : RamfsFile}
    (htree : RamfsTree (Function.update fs idx f)) (hcap : f.capacity = (fs idx).capacity)
    (hsize : f.size ≤ ramfsFileCapacity) : RamfsOk (Function.update fs idx f) := by
  refine ⟨htree, fun i => ?_, fun i => ?_⟩
  · by_cases hi : i = idx
    · rw [hi, Function.update_self, hcap]
      exact h.capacity idx
    · rw [Function.update_of_ne hi]
      exact h.capacity i
  · by_cases hi : i = idx
    · rw [hi, Function.update_self]
      exact hsize
    · rw [Function.update_of_ne hi]
      exact h.size i

theorem RamfsOk.add {fs : Ramfs} (h : RamfsOk fs) (path : Option CStr)
    {fill : RamfsFile → RamfsFile}
    (hfill : ∀ f, (fill f).name = f.name ∧ (fill f).capacity = f.capacity ∧ (fill f).size = 0) :
    RamfsOk (ramfsAdd fs path fill).1 := by
  have htree := h.tree.add path fun f => (hfill f).1
  rcases ramfsAdd_cases fs path fill with heq | ⟨name, idx, -, -, -, -, -, -, heq⟩
  · rw [heq]
    exact h
  · rw [heq] at htree ⊢
    refine h.update htree (hfill _).2.1 ?_
    rw [(hfill _).2.2]
    exact Nat.zero_le _

theorem RamfsOk.change {fs : Ramfs} (h : RamfsOk fs) (path : Option CStr)
    {change : RamfsFile → RamfsFile} (hsame : ∀ f, (change f).name = f.name ∧
      (change f).inUse = f.inUse ∧ (change f).isDir = f.isDir)
    (hsize : ∀ f, (change f).capacity = f.capacity ∧ (change f).size = f.size) :
    RamfsOk (ramfsChange fs path change).1 := by
  have htree := h.tree.change path hsame
  rcases ramfsChange_cases fs path change with heq | ⟨-, idx, -, -, -, heq⟩
  · rw [heq]
    exact h
  · rw [heq] at htree ⊢
    refine h.update htree (hsize _).1 ?_
    rw [(hsize _).2]
    exact h.size idx

/-- How many bytes a write stores. -/
def toWrite (off len : Nat) : Nat :=
  if ramfsFileCapacity < (off + len) % 2 ^ 64 then ramfsFileCapacity - off else len

theorem toWrite_le (off len : Nat) : toWrite off len ≤ len := by
  have hmod := Nat.mod_le (off + len) (2 ^ 64)
  unfold toWrite
  split_ifs <;> omega

@[simp] theorem toWrite_zero (off : Nat) : toWrite off 0 = 0 := Nat.le_zero.mp (toWrite_le off 0)

/-- An entry after a write. -/
def RamfsFile.written (f : RamfsFile) (off : Nat) (buf : List UInt8) : RamfsFile :=
  { f with
    data := storeBytes f.data off (buf.take (toWrite off buf.length))
    size := max f.size (off + toWrite off buf.length) }

/-- An entry is replaced by one of the same name. -/
theorem ramfsOpen_update (fs : Ramfs) {i : Nat} {f : RamfsFile} (hname : f.name = (fs i).name)
    (huse : f.inUse = (fs i).inUse) (path : Option CStr) :
    ramfsOpen (Function.update fs i f) path = ramfsOpen fs path := by
  have hfind : ∀ name, ramfsFindName (Function.update fs i f) name = ramfsFindName fs name := by
    intro name
    refine ramfsFindName_congr fun j _ => ?_
    by_cases hj : j = i
    · rw [hj, Function.update_self, hname, huse]
    · rw [Function.update_of_ne hj]
  unfold ramfsOpen
  simp only [hfind]

/-- A write changes no name. -/
theorem ramfsOpen_written (fs : Ramfs) (i off : Nat) (buf : List UInt8) (path : Option CStr) :
    ramfsOpen (Function.update fs i ((fs i).written off buf)) path = ramfsOpen fs path :=
  ramfsOpen_update fs (f := (fs i).written off buf) rfl rfl path

/-- A write to an entry in use. -/
theorem RamfsOk.write_eq {fs : Ramfs} (h : RamfsOk fs) {i : Nat} (hi : i < ramfsMaxFiles)
    (huse : (fs i).inUse = true) (off : Nat) (buf : List UInt8) :
    ramfsWrite fs i off buf =
      if (fs i).isDir = true ∨ ramfsFileCapacity ≤ off then some (fs, -1) else
      if ramfsFileCapacity < off + toWrite off buf.length then none else
      some (Function.update fs i ((fs i).written off buf), (toWrite off buf.length : Int)) := by
  have hrange : ¬ ((i : Int) < 0 ∨ (ramfsMaxFiles : Int) ≤ i) := by omega
  unfold ramfsWrite
  rw [if_neg hrange]
  simp only [Int.toNat_natCast, h.capacity, huse, Bool.true_eq_false, false_or]
  by_cases hdir : (fs i).isDir = true
  · rw [if_pos hdir, if_pos (.inl hdir)]
  rw [if_neg hdir]
  by_cases hoff : ramfsFileCapacity ≤ off
  · rw [if_pos hoff, if_pos (.inr hoff)]
  rw [if_neg hoff, if_neg (not_or.mpr ⟨hdir, hoff⟩)]
  have hto : (if ramfsFileCapacity < (off + buf.length) % 2 ^ 64 then ramfsFileCapacity - off
      else buf.length) = toWrite off buf.length := rfl
  have hmax : (if (fs i).size < off + toWrite off buf.length then off + toWrite off buf.length
      else (fs i).size) = max (fs i).size (off + toWrite off buf.length) := by
    rw [max_def]
    split_ifs <;> omega
  rw [hto, hmax]
  unfold RamfsFile.written
  simp only [h.capacity, huse]

theorem RamfsOk.write {fs : Ramfs} (h : RamfsOk fs) {fd : Int} {off : Nat} {buf : List UInt8}
    {r : Ramfs × Int} (hcall : ramfsWrite fs fd off buf = some r) : RamfsOk r.1 := by
  have htree : RamfsTree r.1 := h.tree.write hcall
  by_cases hbad : (fd < 0 ∨ (ramfsMaxFiles : Int) ≤ fd) ∨ (fs fd.toNat).inUse = false
  · have hsame : ramfsWrite fs fd off buf = some (fs, -1) := by
      unfold ramfsWrite
      rcases hbad with hrange | hunused
      · rw [if_pos hrange]
      · split_ifs with hrange
        · rfl
        · dsimp only
          rw [if_pos (.inl hunused)]
    rw [hsame] at hcall
    rw [← Option.some.inj hcall]
    exact h
  · rw [not_or, Bool.not_eq_false] at hbad
    have hfd : ((fd.toNat : Nat) : Int) = fd := by omega
    rw [← hfd, h.write_eq (by omega) hbad.2] at hcall
    split_ifs at hcall with hdir hfit
    · rw [← Option.some.inj hcall]
      exact h
    · rw [← Option.some.inj hcall] at htree ⊢
      refine h.update htree rfl (max_le (h.size _) ?_)
      omega

theorem RamfsOk.call {fs : Ramfs} (h : RamfsOk fs) {c : RamfsCall} {r : Ramfs × Int}
    (hcall : fs.call c = some r) : RamfsOk r.1 := by
  cases c with
  | mkdir name =>
      rw [← Option.some.inj hcall]
      exact h.add name fun _ => ⟨rfl, rfl, rfl⟩
  | create name =>
      rw [← Option.some.inj hcall]
      exact h.add name fun _ => ⟨rfl, rfl, rfl⟩
  | symlink target linkpath =>
      rw [← Option.some.inj hcall]
      exact h.add linkpath fun _ => ⟨rfl, rfl, rfl⟩
  | write fd off buf => exact h.write hcall
  | chmod path mode =>
      rw [← Option.some.inj hcall]
      exact h.change path (fun _ => ⟨rfl, rfl, rfl⟩) fun _ => ⟨rfl, rfl⟩
  | chown path uid gid =>
      rw [← Option.some.inj hcall]
      exact h.change path (fun _ => ⟨rfl, rfl, rfl⟩) fun _ => ⟨rfl, rfl⟩
  | unlink name =>
      rw [← Option.some.inj hcall]
      have htree := h.tree.unlink name
      rcases ramfsUnlink_cases fs name with heq | ⟨path, idx, -, -, -, -, heq⟩
      · rw [Ramfs.call, Option.some_inj] at hcall
        rw [heq]
        exact h
      · rw [heq] at htree ⊢
        exact h.update htree rfl (Nat.zero_le _)

/-! ### Bytes -/

theorem storeBytes_apply (buf : List UInt8) : ∀ (data : Nat → UInt8) (off o : Nat),
    storeBytes data off buf o =
      if off ≤ o ∧ o < off + buf.length then buf.getD (o - off) 0 else data o := by
  induction buf with
  | nil =>
      intro data off o
      rw [storeBytes, if_neg]
      simp
  | cons b rest ih =>
      intro data off o
      rw [storeBytes, ih]
      by_cases ho : o = off
      · rw [ho, if_neg (by omega), if_pos (by simp), Function.update_self, Nat.sub_self]
        rfl
      · rw [Function.update_of_ne ho]
        by_cases hin : off + 1 ≤ o ∧ o < off + 1 + rest.length
        · have hsub : o - off = (o - (off + 1)) + 1 := by omega
          rw [if_pos hin, if_pos (by simp; omega), hsub, List.getD_cons_succ]
        · rw [if_neg hin, if_neg (by simp; omega)]

/-- Reading an entry in use. -/
theorem ramfsRead_content {fs : Ramfs} {i : Nat} (hi : i < ramfsMaxFiles)
    (huse : (fs i).inUse = true) (off len : Nat) :
    ramfsRead fs i off len =
      if (fs i).isDir = true then ((-1 : Int), []) else
      ((((fs i).content.drop off).take len).length, ((fs i).content.drop off).take len) := by
  have hrange : ¬ ((i : Int) < 0 ∨ (ramfsMaxFiles : Int) ≤ i) := by omega
  unfold ramfsRead
  rw [if_neg hrange]
  simp only [Int.toNat_natCast, huse, Bool.true_eq_false, false_or]
  split_ifs with hdir hoff hlen
  · rfl
  · rw [List.drop_of_length_le (by rw [length_content]; exact hoff)]
    simp
  · refine Prod.ext ?_ (List.ext_getElem ?_ fun k hk hk' => ?_)
    · simp
      omega
    · simp
      omega
    · simp [getElem_content]
  · refine Prod.ext ?_ (List.ext_getElem ?_ fun k hk hk' => ?_)
    · simp
      omega
    · simp
      omega
    · simp [getElem_content]

theorem length_take_toWrite (off : Nat) (buf : List UInt8) :
    (buf.take (toWrite off buf.length)).length = toWrite off buf.length := by
  rw [List.length_take, min_eq_left (toWrite_le off buf.length)]

/-- A write is one into the content, unless the storage it skips holds something. -/
theorem content_written_iff (f : RamfsFile) (off : Nat) (buf : List UInt8) :
    (f.written off buf).content = splice 0 f.content off (buf.take (toWrite off buf.length)) ↔
      ∀ o, f.size ≤ o → o < off → f.data o = 0 := by
  have hto := length_take_toWrite off buf
  have hread : ∀ o, (f.written off buf).content.getD o 0 =
      if o < max f.size (off + toWrite off buf.length) then
        if off ≤ o ∧ o < off + toWrite off buf.length then
          (buf.take (toWrite off buf.length)).getD (o - off) 0 else f.data o
      else 0 := by
    intro o
    rw [getD_content]
    unfold RamfsFile.written
    dsimp only
    rw [storeBytes_apply, hto]
  constructor
  · intro heq o hsize hoff
    have ho : (f.written off buf).content.getD o 0 = _ := congrArg (List.getD · o 0) heq
    rw [hread, getD_splice, hto, if_pos (by omega), if_neg (by omega), if_neg (by omega),
      getD_content, if_neg (by omega)] at ho
    exact ho
  · intro hgap
    refine ext_getD 0 ?_ fun o ho => ?_
    · rw [length_content, length_splice, length_content, hto]
      rfl
    · replace ho : o < max f.size (off + toWrite off buf.length) := by
        rw [length_content] at ho
        exact ho
      rw [hread, getD_splice, hto, if_pos ho, getD_content]
      by_cases hin : off ≤ o ∧ o < off + toWrite off buf.length
      · rw [if_pos hin, if_pos hin]
      · rw [if_neg hin, if_neg hin]
        split_ifs with hsize
        · rfl
        · exact hgap o (by omega) (by omega)

end BrightS
