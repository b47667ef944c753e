/-
Looking for a name in a leaf of btrfs.

A leaf is well formed when its items lie inside and each item of a directory is packed with entries
(`WellFormedLeaf`).  The lookup then finds the first entry of the directory that has the name
(`btrfs_leaf_lookup_exact`).
-/
import BrightS.Kernel.BtrfsTree

namespace BrightS

open Bytes Records Scans

/-! ### Comparing a name -/

variable {limit : Nat} {node : Mem} {name : List Byte}

/-- A comparison inside the buffer. -/
theorem entryMatches_eq {entry n : Nat} : ∀ {j : Nat}, entry + j + n ≤ limit →
    ∃ found, entryMatches limit node name entry n j = some found ∧
      (found = true ↔ ∀ k, j ≤ k → k < j + n →
        name.getD k 0 ≠ 0 ∧ name.getD k 0 = node (entry + k)) := by
  induction n with
  | zero =>
      intro j _
      refine ⟨true, rfl, ?_⟩
      simp only [true_iff]
      intro k hjk hkj
      omega
  | succ n ih =>
      intro j hroom
      rw [entryMatches]
      by_cases hend : name.getD j 0 = 0
      · rw [if_pos hend]
        refine ⟨false, rfl, ?_⟩
        simp only [Bool.false_eq_true, false_iff]
        intro h
        exact (h j le_rfl (by omega)).1 hend
      rw [if_neg hend, fetch_bind_of_le (by omega)]
      by_cases hbyte : name.getD j 0 = node (entry + j)
      · obtain ⟨found, hcall, hfound⟩ := ih (j := j + 1) (by omega)
        rw [if_neg (not_not.mpr hbyte)]
        refine ⟨found, hcall, ?_⟩
        rw [hfound]
        constructor
        · intro h k hjk hkj
          by_cases hk : k = j
          · rw [hk]
            exact ⟨hend, hbyte⟩
          · exact h k (by omega) (by omega)
        · intro h k hjk hkj
          exact h k (by omega) (by omega)
      · rw [if_pos hbyte]
        refine ⟨false, rfl, ?_⟩
        simp only [Bool.false_eq_true, false_iff]
        intro h
        exact hbyte (h j le_rfl (by omega)).2

theorem entryMatches_of_room {entry n : Nat} (hroom : entry + 0 + n ≤ limit) (node : Mem)
    (name : List Byte) : ∃ found, entryMatches limit node name entry n 0 = some found ∧
      (found = true ↔ ∀ k, 0 ≤ k → k < 0 + n →
        name.getD k 0 ≠ 0 ∧ name.getD k 0 = node (entry + k)) :=
  entryMatches_eq hroom

/-- A name is what it is compared with exactly if it ends there too. -/
theorem name_eq_iff {entry : Nat} {bytes : List Byte} (hname : 0 ∉ name) (hbytes : 0 ∉ bytes)
    (hholds : Holds node entry bytes) :
    ((∀ k, 0 ≤ k → k < 0 + bytes.length →
        name.getD k 0 ≠ 0 ∧ name.getD k 0 = node (entry + k)) ∧
      name.getD bytes.length 0 = 0) ↔ bytes = name := by
  constructor
  · rintro ⟨hall, hend⟩
    have hle : name.length ≤ bytes.length := by
      by_contra hlt
      rw [List.getD_eq_getElem _ _ (by omega)] at hend
      exact hname (hend ▸ List.getElem_mem _)
    have hge : bytes.length ≤ name.length := by
      by_contra hlt
      have hbyte := (hall name.length (Nat.zero_le _) (by omega)).1
      rw [List.getD_eq_default _ _ le_rfl] at hbyte
      exact hbyte rfl
    refine List.ext_getElem (by omega) fun k hk hk' => ?_
    have hbyte := (hall k (Nat.zero_le _) (by omega)).2
    rw [List.getD_eq_getElem _ _ hk', hholds k hk] at hbyte
    exact hbyte.symm
  · rintro rfl
    refine ⟨fun k _ hk => ?_, List.getD_eq_default _ _ le_rfl⟩
    rw [Nat.zero_add] at hk
    rw [List.getD_eq_getElem _ _ hk, hholds k hk]
    exact ⟨fun hzero => hbytes (hzero ▸ List.getElem_mem _), rfl⟩

/-! ### Packed entries -/

structure DirEntry where
  ino : Nat
  name : List Byte

/-- From `off` to `itemEnd` there are these entries, each behind the data of the one before, with
names that are strings. -/
inductive Packed (node : Mem) (itemEnd : Nat) : Nat → List DirEntry → Prop
  | nil : Packed node itemEnd itemEnd []
  | cons {off : Nat} {e : DirEntry} {rest : List DirEntry} (hino : dirItemIno node off = e.ino)
      (hlen : dirItemNameLen node off = e.name.length) (hne : e.name ≠ []) (hclean : 0 ∉ e.name)
      (hname : Holds node (off + btrfsDirItemSize) e.name)
      (hrest : Packed node itemEnd
        (off + btrfsDirItemSize + (dirItemNameLen node off + dirItemDataLen node off)) rest) :
      Packed node itemEnd off (e :: rest)

theorem Packed.le {itemEnd off : Nat} {entries : List DirEntry}
    (h : Packed node itemEnd off entries) : off + entries.length ≤ itemEnd := by
  have hsize : btrfsDirItemSize = 30 := rfl
  induction h with
  | nil => exact le_rfl
  | cons _ _ _ _ _ _ ih =>
      rw [List.length_cons]
      omega

/-- What a lookup returns for an entry. -/
def pickEntry (name : List Byte) (e : DirEntry) : Option (Option Nat) :=
  if e.name = name then some (some e.ino) else none

/-- The loop finds the first entry that has the name. -/
theorem dirItemLoop_packed {itemEnd off : Nat} {entries : List DirEntry} (hname : 0 ∉ name)
    (h : Packed node itemEnd off entries) (hlimit : itemEnd ≤ limit) (hsmall : itemEnd < 2 ^ 32) :
    ∀ {fuel : Nat}, entries.length < fuel →
      dirItemLoop limit node name itemEnd fuel off =
        some (entries.findSome? (pickEntry name)) := by
  have hsize : btrfsDirItemSize = 30 := rfl
  induction h with
  | nil =>
      intro fuel hfuel
      obtain ⟨fuel, rfl⟩ := Nat.exists_eq_succ_of_ne_zero (Nat.ne_zero_of_lt hfuel)
      rw [dirItemLoop, if_neg (by omega)]
      rfl
  | @cons off e rest hino hlen hne hclean hheld hrest ih =>
      intro fuel hfuel
      obtain ⟨fuel, rfl⟩ := Nat.exists_eq_succ_of_ne_zero (Nat.ne_zero_of_lt hfuel)
      have hle := hrest.le
      have hpos := List.length_pos_of_ne_nil hne
      rw [List.length_cons] at hfuel
      have hroom : off + btrfsDirItemSize + 0 + e.name.length ≤ limit := by omega
      obtain ⟨found, hcall, hfound⟩ := entryMatches_of_room hroom node name
      have hmatch : found = true ∧ name.getD e.name.length 0 = 0 ↔ e.name = name := by
        rw [hfound]
        exact name_eq_iff hname hclean hheld
      rw [dirItemLoop, if_pos (by omega), fetch_bind_of_le (by omega), hlen,
        if_neg (by omega), hcall, Option.bind_some, List.findSome?_cons]
      by_cases heq : e.name = name
      · rw [if_pos (hmatch.mpr heq), fetch_of_le (by omega), hino]
        simp [pickEntry, heq]
      · rw [if_neg fun hm => heq (hmatch.mp hm), fetch_bind_of_le (by omega),
          Nat.mod_eq_of_lt (by omega), ← hlen]
        have hpick : pickEntry name e = none := if_neg heq
        rw [hpick]
        exact ih (by omega)

/-! ### Well-formed leaves -/

/-- The items lie in the node, and those of directories are packed with entries. -/
structure WellFormedLeaf (v : BtrfsVolume) (node : Mem) (entries : Nat → List DirEntry) : Prop where
  nodesize : v.nodesize ≤ btrfsMaxNode
  header : btrfsHeaderSize ≤ v.nodesize
  items : ∀ i, i < nodeItems node → itemAt i + btrfsItemSize ≤ v.nodesize
  ranges : ∀ i, i < nodeItems node → itemOffset node i + itemSize node i ≤ v.nodesize
  packed : ∀ i, i < nodeItems node → itemType node i = btrfsDirItemKey →
    Packed node (itemOffset node i + itemSize node i) (itemOffset node i) (entries i)

/-- The entries of a directory, in the order of the leaf. -/
def dirEntries (node : Mem) (entries : Nat → List DirEntry) (dirObjectid : Nat) : List DirEntry :=
  ((List.range (nodeItems node)).filter fun i =>
    itemObjectid node i == dirObjectid && itemType node i == btrfsDirItemKey).flatMap entries

variable {v : BtrfsVolume} {entries : Nat → List DirEntry}

/-- What a lookup returns for an item. -/
def pickItem (node : Mem) (entries : Nat → List DirEntry) (dirObjectid : Nat) (name : List Byte)
    (i : Nat) : Option (Option Nat) :=
  if itemObjectid node i = dirObjectid ∧ itemType node i = btrfsDirItemKey then
    (entries i).findSome? (pickEntry name)
  else none

theorem findInItem_wellFormed (h : WellFormedLeaf v node entries) (dirObjectid : Nat)
    (hname : 0 ∉ name) {i : Nat} (hi : i < nodeItems node) :
    findInItem v node dirObjectid name i = some (pickItem node entries dirObjectid name i) := by
  have hitem := h.items i hi
  have hrange := h.ranges i hi
  have hnodesize := h.nodesize
  have hmax : btrfsMaxNode = 16384 := rfl
  have hsize : btrfsItemSize = 25 := rfl
  unfold findInItem pickItem
  rw [fetch_bind_of_le (by omega)]
  by_cases hdir : itemObjectid node i = dirObjectid
  · rw [if_neg (not_not.mpr hdir), fetch_bind_of_le (by omega)]
    by_cases htype : itemType node i = btrfsDirItemKey
    · have hpacked := h.packed i hi htype
      have hle := hpacked.le
      rw [if_neg (not_not.mpr htype), if_pos ⟨hdir, htype⟩, fetch_bind_of_le (by omega),
        fetch_bind_of_le (by omega), Nat.mod_eq_of_lt (by omega)]
      exact dirItemLoop_packed hname hpacked hrange (by omega) (by omega)
    · rw [if_pos htype, if_neg fun hboth => htype hboth.2]
  · rw [if_pos hdir, if_neg fun hboth => hdir hboth.1]

theorem join_map_ino (found : Option DirEntry) :
    (found.map fun e => some e.ino).join = found.map DirEntry.ino := by
  cases found with
  | none => rfl
  | some e => rfl

/-- Item by item, or entry by entry. -/
theorem findSome_pickItem (dirObjectid : Nat) (l : List Nat) :
    l.findSome? (pickItem node entries dirObjectid name) =
      (((l.filter fun i => itemObjectid node i == dirObjectid &&
        itemType node i == btrfsDirItemKey).flatMap entries).find?
          fun e => e.name == name).map fun e => some e.ino := by
  have hentries : ∀ es : List DirEntry, es.findSome? (pickEntry name) =
      (es.find? fun e => e.name == name).map fun e => some e.ino := by
    intro es
    induction es with
    | nil => rfl
    | cons e rest ih =>
        rw [List.findSome?_cons, List.find?_cons, ih]
        by_cases heq : e.name = name
        · simp [pickEntry, heq]
        · have hbeq : (e.name == name) = false := by simpa using heq
          simp [pickEntry, heq, hbeq]
  induction l with
  | nil => rfl
  | cons i rest ih =>
      rw [List.findSome?_cons, ih]
      by_cases hitem : itemObjectid node i = dirObjectid ∧ itemType node i = btrfsDirItemKey
      · rw [List.filter_cons_of_pos (by simpa using hitem), List.flatMap_cons, List.find?_append,
          pickItem, if_pos hitem, hentries]
        cases (entries i).find? fun e => e.name == name with
        | none => rfl
        | some e => rfl
      · rw [List.filter_cons_of_neg (by simpa using hitem), pickItem, if_neg hitem]

/--
**Looking up a name in a leaf is exact.**  In a well-formed leaf the lookup returns the inode of the
first entry of the directory that has precisely this name, and -1 if there is none.
-/
theorem btrfs_leaf_lookup_exact (h : WellFormedLeaf v node entries) (dirObjectid : Nat)
    (hname : 0 ∉ name) :
    fsTreeFindInodeByNameLeaf v dirObjectid name node =
      some (((dirEntries node entries dirObjectid).find? fun e => e.name == name).map
        DirEntry.ino) := by
  have hheader := h.header
  have hsize : btrfsHeaderSize = 101 := rfl
  have hscan : scan (findInItem v node dirObjectid name) (List.range (nodeItems node)) =
      some ((List.range (nodeItems node)).findSome? (pickItem node entries dirObjectid name)) :=
    scan_eq_findSome fun i hi =>
      findInItem_wellFormed h dirObjectid hname (List.mem_range.mp hi)
  unfold fsTreeFindInodeByNameLeaf leafItems dirEntries
  rw [fetch_bind_of_le (by omega), hscan, findSome_pickItem, Option.map_some, join_map_ino]

/-- The bytes of an entry without data. -/
def dirEntryBytes (e : DirEntry) : List Byte :=
  store64 (BitVec.ofNat 64 e.ino) ++ [1] ++ store64 0 ++ store64 1 ++ store16 0 ++
    store16 (BitVec.ofNat 16 e.name.length) ++ [0] ++ e.name

/-- A directory with two files, the name of one the front of the other's. -/
def twoEntries : List DirEntry := [⟨7, [97, 98]⟩, ⟨9, [97]⟩]

/-- A leaf with one item, at 200, which holds these entries of directory 256. -/
def twoEntriesLeaf : Mem :=
  let item := store64 256 ++ [84] ++ store64 0 ++ store32 200 ++ store32 63
  storeAt (storeAt (onto (List.replicate 96 0 ++ store32 1) fun _ => 0) (itemAt 0) item) 200
    (twoEntries.flatMap dirEntryBytes)

def smallVolume : BtrfsVolume where
  nodesize := 4096
  chunkMap := []
  read := fun _ _ => none

theorem twoEntriesLeaf_wellFormed :
    WellFormedLeaf smallVolume twoEntriesLeaf fun _ => twoEntries := by
  have hitems : nodeItems twoEntriesLeaf = 1 := by decide +kernel
  have hoffset : itemOffset twoEntriesLeaf 0 = 200 := by decide +kernel
  have hsize : itemSize twoEntriesLeaf 0 = 63 := by decide +kernel
  have hfirst : dirItemNameLen twoEntriesLeaf 200 = 2 ∧ dirItemDataLen twoEntriesLeaf 200 = 0 := by
    decide +kernel
  have hsecond : dirItemNameLen twoEntriesLeaf 232 = 1 ∧ dirItemDataLen twoEntriesLeaf 232 = 0 := by
    decide +kernel
  refine ⟨by decide, by decide, fun i hi => ?_, fun i hi => ?_, fun i hi _ => ?_⟩
  · obtain rfl : i = 0 := by omega
    decide
  · obtain rfl : i = 0 := by omega
    rw [hoffset, hsize]
    decide
  · obtain rfl : i = 0 := by omega
    rw [hoffset, hsize]
    refine .cons (by decide +kernel) hfirst.1 (by decide) (by decide) ?_ ?_
    · exact slice_eq_iff.mp (by decide +kernel)
    · have hnext : 200 + btrfsDirItemSize + (2 + 0) = 232 := rfl
      rw [hfirst.1, hfirst.2, hnext]
      refine .cons (by decide +kernel) hsecond.1 (by decide) (by decide) ?_ ?_
      · exact slice_eq_iff.mp (by decide +kernel)
      · rw [hsecond.1, hsecond.2]
        exact .nil

/-- The longer name is stepped over. -/
theorem btrfs_leaf_lookup_exact_second :
    fsTreeFindInodeByNameLeaf smallVolume 256 [97] twoEntriesLeaf = some (some 9) := by
  refine (btrfs_leaf_lookup_exact twoEntriesLeaf_wellFormed 256 (by decide)).trans ?_
  decide +kernel

end BrightS
