/-
Reads inside a leaf of btrfs.

A lookup and the reading of a file look at the items of a leaf one after the other, until one
ends the loop.  Both stay in the node exactly if what they look at lies inside
(`findLeafInside_of_long`, `isSome_readLeaf_iff`).  For a lookup, names that are longer than any
entry tell it: they match nothing, and can be made to agree with the bytes of the node.
-/
import BrightS.Proofs.BtrfsLeaf

namespace BrightS

open Bytes Records Scans

/-! ### Entries -/

variable {v : BtrfsVolume} {limit : Nat} {node : Mem} {name : List Byte}

/-- The bytes of an entry lie in the node, as far as no null byte stands before. -/
def EntryInside (limit : Nat) (node : Mem) (entry n : Nat) : Prop :=
  ∀ j, j < n → (∀ k, k < j → node (entry + k) ≠ 0) → entry + j + 1 ≤ limit

/-- A string that is longer than any entry. -/
structure LongName (name : List Byte) : Prop where
  clean : 0 ∉ name
  long : 2 ^ 16 ≤ name.length

theorem LongName.getD_ne_zero (h : LongName name) {k : Nat} (hk : k < 2 ^ 16) :
    name.getD k 0 ≠ 0 := by
  have hlong := h.long
  rw [List.getD_eq_getElem _ _ (by omega)]
  exact fun hzero => h.clean (hzero ▸ List.getElem_mem _)

/-- A comparison reads a byte only behind bytes that are not null. -/
theorem entryMatches_isSome {entry n : Nat} : ∀ {j : Nat},
    (∀ i, j ≤ i → i < j + n → (∀ k, j ≤ k → k < i → node (entry + k) ≠ 0) →
      entry + i + 1 ≤ limit) →
    (entryMatches limit node name entry n j).isSome := by
  induction n with
  | zero => exact fun _ => rfl
  | succ n ih =>
      intro j hinside
      rw [entryMatches]
      by_cases hend : name.getD j 0 = 0
      · rw [if_pos hend]
        rfl
      rw [if_neg hend, fetch_bind_of_le (hinside j le_rfl (by omega) fun k hjk hkj => by omega)]
      by_cases hbyte : name.getD j 0 = node (entry + j)
      · rw [if_neg (not_not.mpr hbyte)]
        refine ih fun i hji hij hbefore => hinside i (by omega) (by omega) fun k hjk hki => ?_
        by_cases hk : k = j
        · rw [hk, ← hbyte]
          exact hend
        · exact hbefore k (by omega) hki
      · rw [if_pos hbyte]
        rfl

/-- The bytes of the node, and others in place of null bytes. -/
def likeNode (node : Mem) (entry : Nat) : List Byte :=
  (List.range (2 ^ 16)).map fun k => if node (entry + k) = 0 then 1 else node (entry + k)

theorem longName_likeNode (node : Mem) (entry : Nat) : LongName (likeNode node entry) := by
  refine ⟨fun hzero => ?_, by simp [likeNode]⟩
  obtain ⟨k, -, hk⟩ := List.mem_map.mp hzero
  split_ifs at hk with hnode
  · exact absurd hk (by decide)
  · exact hnode hk

theorem getD_likeNode {entry k : Nat} (hk : k < 2 ^ 16) :
    (likeNode node entry).getD k 0 = if node (entry + k) = 0 then 1 else node (entry + k) := by
  unfold likeNode
  rw [List.getD_eq_getElem _ _ (by rw [List.length_map, List.length_range]; exact hk),
    List.getElem_map, List.getElem_range]

/-- A comparison with a name that is like the node reads as far as it can. -/
theorem inside_of_likeNode {entry n : Nat} : ∀ {j : Nat}, j + n ≤ 2 ^ 16 →
    (entryMatches limit node (likeNode node entry) entry n j).isSome →
    ∀ i, j ≤ i → i < j + n → (∀ k, j ≤ k → k < i → node (entry + k) ≠ 0) →
      entry + i + 1 ≤ limit := by
  induction n with
  | zero => exact fun _ _ i hji hij _ => by omega
  | succ n ih =>
      intro j hn hsome i hji hij hbefore
      have hne := (longName_likeNode node entry).getD_ne_zero (k := j) (by omega)
      rw [entryMatches, if_neg hne, isSome_fetch_bind] at hsome
      obtain ⟨hroom, hrest⟩ := hsome
      by_cases hi : i = j
      · rw [hi]
        exact hroom
      have hbyte : (likeNode node entry).getD j 0 = node (entry + j) := by
        rw [getD_likeNode (by omega), if_neg (hbefore j le_rfl (by omega))]
      rw [if_neg (not_not.mpr hbyte)] at hrest
      exact ih (by omega) hrest i (by omega) (by omega) fun k hjk hki => hbefore k (by omega) hki

theorem halfAt_lt (m : Mem) (a : Nat) : halfAt m a < 2 ^ 16 := (load16 m a).isLt

theorem dirItemNameLen_lt (node : Mem) (off : Nat) : dirItemNameLen node off < 2 ^ 16 :=
  halfAt_lt ..

/-! ### The entries of an item -/

/-- The header of each entry lies in the node, and its name as far as it is read, up to the end of
the item or an entry without a name. -/
inductive EntriesInside (limit : Nat) (node : Mem) (itemEnd : Nat) : Nat → Prop
  | done {off : Nat} (hend : itemEnd < off + btrfsDirItemSize) :
      EntriesInside limit node itemEnd off
  | unnamed {off : Nat} (hroom : off + 29 ≤ limit) (hname : dirItemNameLen node off = 0) :
      EntriesInside limit node itemEnd off
  | named {off : Nat} (hroom : off + 29 ≤ limit)
      (hname : EntryInside limit node (off + btrfsDirItemSize) (dirItemNameLen node off))
      (next : EntriesInside limit node itemEnd
        (off + btrfsDirItemSize + (dirItemNameLen node off + dirItemDataLen node off))) :
      EntriesInside limit node itemEnd off

/-- There is an entry without a name. -/
inductive HasUnnamed (node : Mem) (itemEnd : Nat) : Nat → Prop
  | here {off : Nat} (hin : off + btrfsDirItemSize ≤ itemEnd)
      (hname : dirItemNameLen node off = 0) : HasUnnamed node itemEnd off
  | later {off : Nat} (hin : off + btrfsDirItemSize ≤ itemEnd)
      (hname : dirItemNameLen node off ≠ 0)
      (next : HasUnnamed node itemEnd
        (off + btrfsDirItemSize + (dirItemNameLen node off + dirItemDataLen node off))) :
      HasUnnamed node itemEnd off

/-- The offset of the next entry does not wrap. -/
theorem nextEntry_mod {off : Nat} (hlimit : limit ≤ btrfsMaxNode) (hroom : off + 29 ≤ limit) :
    (off + btrfsDirItemSize + (dirItemNameLen node off + dirItemDataLen node off)) % 2 ^ 32 =
      off + btrfsDirItemSize + (dirItemNameLen node off + dirItemDataLen node off) := by
  have hmax : btrfsMaxNode = 16384 := rfl
  have hsize : btrfsDirItemSize = 30 := rfl
  have hname := dirItemNameLen_lt node off
  have hdata : dirItemDataLen node off < 2 ^ 16 := halfAt_lt ..
  exact Nat.mod_eq_of_lt (by omega)

/-- The rounds of the loop are enough. -/
theorem dirItemLoop_isSome {itemEnd off : Nat} (hlimit : limit ≤ btrfsMaxNode)
    (h : EntriesInside limit node itemEnd off) :
    ∀ {fuel : Nat}, limit < fuel + off → 0 < fuel →
      (dirItemLoop limit node name itemEnd fuel off).isSome := by
  have hsize : btrfsDirItemSize = 30 := rfl
  induction h with
  | done hend =>
      intro fuel _ hpos
      obtain ⟨fuel, rfl⟩ := Nat.exists_eq_succ_of_ne_zero hpos.ne'
      rw [dirItemLoop, if_neg (by omega)]
      rfl
  | unnamed hroom hname =>
      intro fuel _ hpos
      obtain ⟨fuel, rfl⟩ := Nat.exists_eq_succ_of_ne_zero hpos.ne'
      rw [dirItemLoop]
      split_ifs
      · rw [fetch_bind_of_le (by omega), if_pos hname]
        rfl
      · rfl
  | @named off hroom hname next ih =>
      intro fuel hfuel hpos
      obtain ⟨fuel, rfl⟩ := Nat.exists_eq_succ_of_ne_zero hpos.ne'
      rw [dirItemLoop]
      split_ifs
      · rw [fetch_bind_of_le (by omega)]
        split_ifs
        · rfl
        · have hmatches : (entryMatches limit node name (off + btrfsDirItemSize)
              (dirItemNameLen node off) 0).isSome := by
            refine entryMatches_isSome fun i _ hi hbefore => hname i (by omega) fun k hk => ?_
            exact hbefore k (Nat.zero_le _) hk
          obtain ⟨found, hfound⟩ := Option.isSome_iff_exists.mp hmatches
          rw [hfound, Option.bind_some]
          split_ifs
          · rw [fetch_of_le (by omega)]
            rfl
          · rw [fetch_bind_of_le (by omega), nextEntry_mod hlimit hroom]
            exact ih (by omega) (by omega)
      · rfl

/-- The loop does not get past an entry without a name. -/
theorem not_hasUnnamed_of_go {itemEnd off : Nat} (hlimit : limit ≤ btrfsMaxNode)
    (h : HasUnnamed node itemEnd off) :
    ∀ fuel, dirItemLoop limit node name itemEnd fuel off ≠ some none := by
  induction h with
  | here hin hname =>
      intro fuel hgo
      cases fuel with
      | zero => cases hgo
      | succ fuel =>
          rw [dirItemLoop, if_pos hin, Option.bind_eq_some_iff] at hgo
          obtain ⟨len, hlen, hgo⟩ := hgo
          unfold fetch at hlen
          split_ifs at hlen
          rw [if_pos ((Option.some.inj hlen).symm.trans hname)] at hgo
          cases hgo
  | @later off hin hname next ih =>
      intro fuel hgo
      cases fuel with
      | zero => cases hgo
      | succ fuel =>
          rw [dirItemLoop, if_pos hin, Option.bind_eq_some_iff] at hgo
          obtain ⟨len, hlen, hgo⟩ := hgo
          unfold fetch at hlen
          split_ifs at hlen with hroom
          obtain rfl : dirItemNameLen node off = len := Option.some.inj hlen
          rw [if_neg hname, Option.bind_eq_some_iff] at hgo
          obtain ⟨found, -, hgo⟩ := hgo
          split_ifs at hgo
          · rw [Option.map_eq_some_iff] at hgo
            obtain ⟨ino, -, hino⟩ := hgo
            cases hino
          · rw [fetch_bind_of_le (by omega), nextEntry_mod hlimit hroom] at hgo
            exact ih fuel hgo

/-- A round of the loop that stays in the node, for a name that is longer than all entries: it
returns at an entry without a name, and goes on behind any other one. -/
theorem dirItemLoop_round (hname : LongName name) (hlimit : limit ≤ btrfsMaxNode)
    {itemEnd fuel off : Nat} (hin : off + btrfsDirItemSize ≤ itemEnd)
    (hsome : (dirItemLoop limit node name itemEnd (fuel + 1) off).isSome) :
    off + 29 ≤ limit ∧
      (dirItemNameLen node off = 0 →
        dirItemLoop limit node name itemEnd (fuel + 1) off = some (some none)) ∧
      (dirItemNameLen node off ≠ 0 →
        (entryMatches limit node name (off + btrfsDirItemSize)
          (dirItemNameLen node off) 0).isSome ∧
        dirItemLoop limit node name itemEnd (fuel + 1) off =
          dirItemLoop limit node name itemEnd fuel
            (off + btrfsDirItemSize + (dirItemNameLen node off + dirItemDataLen node off))) := by
  rw [dirItemLoop, if_pos hin, isSome_fetch_bind] at hsome
  obtain ⟨hroom, hsome⟩ := hsome
  rw [dirItemLoop, if_pos hin, fetch_bind_of_le hroom]
  refine ⟨by omega, fun hlen => if_pos hlen, fun hlen => ?_⟩
  rw [if_neg hlen] at hsome ⊢
  cases hcall : entryMatches limit node name (off + btrfsDirItemSize)
      (dirItemNameLen node off) 0 with
  | none =>
      rw [hcall] at hsome
      cases hsome
  | some found =>
      have hother : ¬ (found = true ∧ name.getD (dirItemNameLen node off) 0 = 0) :=
        fun h => hname.getD_ne_zero (dirItemNameLen_lt ..) h.2
      rw [hcall, Option.bind_some, if_neg hother, isSome_fetch_bind] at hsome
      rw [Option.bind_some, if_neg hother, fetch_bind_of_le hsome.1,
        nextEntry_mod hlimit (by omega)]
      exact ⟨rfl, rfl⟩

/-- What the loop does for a name that is longer than all entries. -/
theorem dirItemLoop_long (hname : LongName name) {itemEnd fuel : Nat} : ∀ {off : Nat},
    limit ≤ btrfsMaxNode → (dirItemLoop limit node name itemEnd fuel off).isSome →
    dirItemLoop limit node name itemEnd fuel off = some none ∧ ¬ HasUnnamed node itemEnd off ∨
      dirItemLoop limit node name itemEnd fuel off = some (some none) ∧
        HasUnnamed node itemEnd off := by
  induction fuel with
  | zero => exact fun _ h => absurd h (by simp [dirItemLoop])
  | succ fuel ih =>
      intro off hlimit hsome
      by_cases hin : off + btrfsDirItemSize ≤ itemEnd
      · obtain ⟨-, hreturn, hnext⟩ := dirItemLoop_round hname hlimit hin hsome
        by_cases hlen : dirItemNameLen node off = 0
        · exact .inr ⟨hreturn hlen, .here hin hlen⟩
        obtain ⟨-, hgo⟩ := hnext hlen
        rw [hgo] at hsome ⊢
        rcases ih hlimit hsome with ⟨hgo, hno⟩ | ⟨hret, hhas⟩
        · refine .inl ⟨hgo, fun hhas => ?_⟩
          cases hhas with
          | here _ hzero => exact hlen hzero
          | later _ _ next => exact hno next
        · exact .inr ⟨hret, .later hin hlen hhas⟩
      · rw [dirItemLoop, if_neg hin]
        refine .inl ⟨rfl, fun hhas => ?_⟩
        cases hhas with
        | here hle _ => exact hin hle
        | later hle _ _ => exact hin hle

/-- If no long name leads out of the node, the entries lie inside. -/
theorem entriesInside_of_long {itemEnd : Nat} (hlimit : limit ≤ btrfsMaxNode) (fuel : Nat) :
    ∀ {off : Nat},
      (∀ name, LongName name → (dirItemLoop limit node name itemEnd fuel off).isSome) →
      EntriesInside limit node itemEnd off := by
  induction fuel with
  | zero => exact fun h => absurd (h _ (longName_likeNode node 0)) (by simp [dirItemLoop])
  | succ fuel ih =>
      intro off h
      by_cases hin : off + btrfsDirItemSize ≤ itemEnd
      · have hround := fun name (hname : LongName name) =>
          dirItemLoop_round hname hlimit hin (h name hname)
        obtain ⟨hroom, -, hlike⟩ := hround _ (longName_likeNode node (off + btrfsDirItemSize))
        by_cases hlen : dirItemNameLen node off = 0
        · exact .unnamed hroom hlen
        · have hlt := dirItemNameLen_lt node off
          refine .named hroom (fun i hi hbefore => ?_) (ih fun name hname => ?_)
          · exact inside_of_likeNode (by omega) (hlike hlen).1 i (Nat.zero_le _) (by omega)
              fun k _ hk => hbefore k hk
          · rw [← ((hround name hname).2.2 hlen).2]
            exact h name hname
      · exact .done (by omega)

/-! ### Leaves, for a lookup -/

variable {dir i : Nat}

/-- The fields of an item that a lookup in this directory reads lie in the node, and so do its
entries. -/
def FindItemInside (v : BtrfsVolume) (node : Mem) (dir i : Nat) : Prop :=
  itemAt i + 8 ≤ v.nodesize ∧ (itemObjectid node i = dir → itemAt i + 9 ≤ v.nodesize ∧
    (itemType node i = btrfsDirItemKey → itemAt i + btrfsItemSize ≤ v.nodesize ∧
      EntriesInside v.nodesize node ((itemOffset node i + itemSize node i) % 2 ^ 32)
        (itemOffset node i)))

/-- A lookup in this directory does not get past the item. -/
def FindStops (node : Mem) (dir i : Nat) : Prop :=
  itemObjectid node i = dir ∧ itemType node i = btrfsDirItemKey ∧
    HasUnnamed node ((itemOffset node i + itemSize node i) % 2 ^ 32) (itemOffset node i)

theorem findInItem_isSome (hlimit : v.nodesize ≤ btrfsMaxNode)
    (h : FindItemInside v node dir i) (name : List Byte) :
    (findInItem v node dir name i).isSome := by
  have hsize : btrfsItemSize = 25 := rfl
  obtain ⟨hid, hfields⟩ := h
  unfold findInItem
  rw [fetch_bind_of_le hid]
  by_cases hdir : itemObjectid node i = dir
  · obtain ⟨htype, hentries⟩ := hfields hdir
    rw [if_neg (not_not.mpr hdir), fetch_bind_of_le (by omega)]
    by_cases hkey : itemType node i = btrfsDirItemKey
    · obtain ⟨hroom, hinside⟩ := hentries hkey
      rw [if_neg (not_not.mpr hkey), fetch_bind_of_le (by omega), fetch_bind_of_le (by omega)]
      exact dirItemLoop_isSome hlimit hinside (by omega) (by omega)
    · rw [if_pos hkey]
      rfl
  · rw [if_pos hdir]
    rfl

theorem not_findStops_of_go (hlimit : v.nodesize ≤ btrfsMaxNode)
    (hgo : findInItem v node dir name i = some none) : ¬ FindStops node dir i := by
  rintro ⟨hdir, hkey, hunnamed⟩
  have hsome : (findInItem v node dir name i).isSome := by rw [hgo]; rfl
  unfold findInItem at hgo hsome
  rw [isSome_fetch_bind, if_neg (not_not.mpr hdir), isSome_fetch_bind,
    if_neg (not_not.mpr hkey), isSome_fetch_bind, isSome_fetch_bind] at hsome
  obtain ⟨hid, htype, hoffset, hsize, -⟩ := hsome
  rw [fetch_bind_of_le hid, if_neg (not_not.mpr hdir), fetch_bind_of_le htype,
    if_neg (not_not.mpr hkey), fetch_bind_of_le hoffset, fetch_bind_of_le hsize] at hgo
  exact not_hasUnnamed_of_go hlimit hunnamed _ hgo

/-- What an item does to a lookup for a name that is longer than all entries. -/
theorem findInItem_long (hlimit : v.nodesize ≤ btrfsMaxNode) (hname : LongName name)
    (hsome : (findInItem v node dir name i).isSome) :
    findInItem v node dir name i = some none ∧ ¬ FindStops node dir i ∨
      findInItem v node dir name i = some (some none) ∧ FindStops node dir i := by
  unfold findInItem at hsome ⊢
  rw [isSome_fetch_bind] at hsome
  obtain ⟨hid, hsome⟩ := hsome
  rw [fetch_bind_of_le hid]
  by_cases hdir : itemObjectid node i = dir
  · rw [if_neg (not_not.mpr hdir), isSome_fetch_bind] at hsome
    obtain ⟨htype, hsome⟩ := hsome
    rw [if_neg (not_not.mpr hdir), fetch_bind_of_le htype]
    by_cases hkey : itemType node i = btrfsDirItemKey
    · rw [if_neg (not_not.mpr hkey), isSome_fetch_bind, isSome_fetch_bind] at hsome
      obtain ⟨hoffset, hsize, hsome⟩ := hsome
      rw [if_neg (not_not.mpr hkey), fetch_bind_of_le hoffset, fetch_bind_of_le hsize]
      rcases dirItemLoop_long hname hlimit hsome with ⟨hgo, hno⟩ | ⟨hret, hhas⟩
      · exact .inl ⟨hgo, fun h => hno h.2.2⟩
      · exact .inr ⟨hret, hdir, hkey, hhas⟩
    · rw [if_pos hkey]
      exact .inl ⟨rfl, fun h => hkey h.2.1⟩
  · rw [if_pos hdir]
    exact .inl ⟨rfl, fun h => hdir h.1⟩

theorem findItemInside_of_long (hlimit : v.nodesize ≤ btrfsMaxNode)
    (h : ∀ name, LongName name → (findInItem v node dir name i).isSome) :
    FindItemInside v node dir i := by
  have hitem : btrfsItemSize = 25 := rfl
  have hsteps := fun name (hname : LongName name) => h name hname
  simp only [findInItem, isSome_fetch_bind] at hsteps
  obtain ⟨hid, hrest⟩ := hsteps _ (longName_likeNode node 0)
  refine ⟨hid, fun hdir => ?_⟩
  simp only [hdir, ne_eq, not_true_eq_false, if_false, isSome_fetch_bind] at hsteps hrest
  refine ⟨hrest.1, fun hkey => ?_⟩
  simp only [hkey, not_true_eq_false, if_false, isSome_fetch_bind] at hsteps hrest
  obtain ⟨-, hoffset, hsize, -⟩ := hrest
  refine ⟨by omega, entriesInside_of_long hlimit (v.nodesize + 1) fun name hname => ?_⟩
  exact (hsteps name hname).2.2.2.2

/-- The items of a leaf lie inside for a lookup in this directory, up to one it does not get
past. -/
def FindLeafInside (v : BtrfsVolume) (node : Mem) (dir : Nat) : Prop :=
  ∀ i, i < nodeItems node → (∀ j, j < i → ¬ FindStops node dir j) → FindItemInside v node dir i

/-- What the size of nodes is where one has been read and its header lies inside. -/
structure NodeSized (v : BtrfsVolume) : Prop where
  max : v.nodesize ≤ btrfsMaxNode
  header : btrfsHeaderSize ≤ v.nodesize

theorem isSome_leafItems {ρ : Type} (hv : NodeSized v) {item : Nat → Option (Option ρ)} :
    (leafItems v node item).isSome ↔ ∀ i, i < nodeItems node →
      (∀ j, j < i → item j = some none) → (item i).isSome := by
  have hheader := hv.header
  have hsize : btrfsHeaderSize = 101 := rfl
  unfold leafItems
  rw [fetch_bind_of_le (by omega), scan_range_isSome]

theorem isSome_findLeaf (hv : NodeSized v) : (fsTreeFindInodeByNameLeaf v dir name node).isSome ↔
    ∀ i, i < nodeItems node → (∀ j, j < i → findInItem v node dir name j = some none) →
      (findInItem v node dir name i).isSome := by
  unfold fsTreeFindInodeByNameLeaf
  rw [Option.isSome_map, isSome_leafItems hv]

theorem findLeaf_isSome (hv : NodeSized v) (h : FindLeafInside v node dir) (name : List Byte) :
    (fsTreeFindInodeByNameLeaf v dir name node).isSome := by
  refine (isSome_findLeaf hv).mpr fun i hi hgo => ?_
  exact findInItem_isSome hv.max (h i hi fun j hj => not_findStops_of_go hv.max (hgo j hj)) name

theorem findLeafInside_of_long (hv : NodeSized v)
    (h : ∀ name, LongName name → (fsTreeFindInodeByNameLeaf v dir name node).isSome) :
    FindLeafInside v node dir := by
  intro i hi hstops
  refine findItemInside_of_long hv.max fun name hname => ?_
  have hleaf := (isSome_findLeaf hv).mp (h name hname)
  refine hleaf i hi fun j hj => ?_
  -- The items before are safe one after the other, and none of them stops the lookup.
  induction j using Nat.strong_induction_on with
  | _ j ih =>
      have hsome := hleaf j (by omega) fun k hk => ih k hk (by omega)
      rcases findInItem_long hv.max hname hsome with ⟨hgo, -⟩ | ⟨-, hstop⟩
      · exact hgo
      · exact absurd hstop (hstops j hj)

/-- A long name is not found. -/
theorem findLeaf_long (hlimit : v.nodesize ≤ btrfsMaxNode) (hname : LongName name)
    {r : Option Nat} (hcall : fsTreeFindInodeByNameLeaf v dir name node = some r) : r = none := by
  unfold fsTreeFindInodeByNameLeaf leafItems at hcall
  rw [Option.map_eq_some_iff] at hcall
  obtain ⟨s, hscan, rfl⟩ := hcall
  rw [Option.bind_eq_some_iff] at hscan
  obtain ⟨n, -, hscan⟩ := hscan
  cases s with
  | none => rfl
  | some t =>
      obtain ⟨i, -, hitem⟩ := mem_of_scan_ret hscan
      rcases findInItem_long hlimit hname (by rw [hitem]; rfl) with ⟨hgo, -⟩ | ⟨hret, -⟩
      · rw [hitem] at hgo
        cases hgo
      · rw [hitem] at hret
        exact Option.some.inj (Option.some.inj hret)

/-! ### Leaves, for a file -/

variable {inode : Nat}

/-- How many bytes of an inline extent are printed at most. -/
def inlineLen (node : Mem) (i : Nat) : Nat :=
  min ((itemSize node i + (2 ^ 32 - btrfsFileExtentItemSize)) % 2 ^ 32) 128

/-- The extent of an item lies in the node, with the bytes that are printed; where it is a regular
one, the device refuses to read it. -/
structure ExtentInside (v : BtrfsVolume) (node : Mem) (i : Nat) : Prop where
  offset : itemAt i + 21 ≤ v.nodesize
  type : itemOffset node i + 21 ≤ v.nodesize
  inlineSize : extentType node (itemOffset node i) = 0 → itemAt i + btrfsItemSize ≤ v.nodesize
  inlineData : extentType node (itemOffset node i) = 0 → ∀ j, j < inlineLen node i →
    itemOffset node i + btrfsFileExtentItemSize + j + 1 ≤ v.nodesize
  regular : extentType node (itemOffset node i) = 1 → itemOffset node i + 29 ≤ v.nodesize
  refused : extentType node (itemOffset node i) = 1 →
    v.read (mapLogical v.chunkMap (extentDiskBytenr node (itemOffset node i)) / blockSize)
      (blockCount 256) = none

/-- The fields of an item that reading this file looks at lie in the node, and so does its
extent. -/
def ReadItemInside (v : BtrfsVolume) (inode : Nat) (node : Mem) (i : Nat) : Prop :=
  itemAt i + 8 ≤ v.nodesize ∧ (itemObjectid node i = inode → itemAt i + 9 ≤ v.nodesize ∧
    (itemType node i = btrfsExtentDataKey → ExtentInside v node i))

/-- The item is an inline or a regular extent of the file. -/
def IsExtent (inode : Nat) (node : Mem) (i : Nat) : Prop :=
  itemObjectid node i = inode ∧ itemType node i = btrfsExtentDataKey ∧
    extentType node (itemOffset node i) ≤ 1

theorem isSome_mapM {α β : Type} {f : α → Option β} (l : List α) :
    (l.mapM f).isSome ↔ ∀ a ∈ l, (f a).isSome := by
  induction l with
  | nil => simp
  | cons a rest ih =>
      rw [List.mapM_cons, List.forall_mem_cons, ← ih]
      cases hfa : f a with
      | none => simp
      | some b =>
          cases hrest : rest.mapM f with
          | none => simp
          | some bs => simp

/-- An extent of the file, read. -/
theorem readInItem_extent (hid : itemAt i + 8 ≤ v.nodesize) (hinode : itemObjectid node i = inode)
    (htype : itemAt i + 9 ≤ v.nodesize) (hkey : itemType node i = btrfsExtentDataKey) :
    ((readInItem v inode node i).isSome ↔ ExtentInside v node i) ∧
      (ExtentInside v node i →
        (readInItem v inode node i = some none ↔ ¬ extentType node (itemOffset node i) ≤ 1)) := by
  have hitem : btrfsItemSize = 25 := rfl
  unfold readInItem
  rw [fetch_bind_of_le hid, if_neg (not_not.mpr hinode), fetch_bind_of_le (by omega),
    if_neg (not_not.mpr hkey)]
  by_cases hoffset : itemAt i + 21 ≤ v.nodesize
  swap
  · have hstuck : ¬ itemAt i + 17 + 4 ≤ v.nodesize := by omega
    rw [isSome_fetch_bind]
    exact ⟨iff_of_false (fun h => hstuck h.1) fun h => hoffset h.offset,
      fun h => absurd h.offset hoffset⟩
  by_cases hext : itemOffset node i + 21 ≤ v.nodesize
  swap
  · have hstuck : ¬ itemOffset node i + 20 + 1 ≤ v.nodesize := by omega
    rw [isSome_fetch_bind, isSome_fetch_bind]
    exact ⟨iff_of_false (fun h => hstuck h.2.1) fun h => hext h.type,
      fun h => absurd h.type hext⟩
  rw [fetch_bind_of_le (by omega), fetch_bind_of_le (by omega)]
  by_cases hinline : extentType node (itemOffset node i) = 0
  · have hnever : ¬ (fetch v.nodesize (itemAt i + 21) 4 (itemSize node i)).bind (fun size =>
        ((List.range (min ((size + (2 ^ 32 - btrfsFileExtentItemSize)) % 2 ^ 32) 128)).mapM fun j =>
          fetch v.nodesize (itemOffset node i + btrfsFileExtentItemSize + j) 1
            (node (itemOffset node i + btrfsFileExtentItemSize + j))).map some) = some none := by
      rw [Option.bind_eq_some_iff]
      rintro ⟨size, -, hmap⟩
      rw [Option.map_eq_some_iff] at hmap
      obtain ⟨bytes, -, hbytes⟩ := hmap
      cases hbytes
    rw [if_pos hinline]
    refine ⟨?_, fun _ => iff_of_false hnever (not_not.mpr (by omega))⟩
    rw [isSome_fetch_bind, Option.isSome_map, isSome_mapM]
    simp only [isSome_fetch, List.mem_range]
    constructor
    · rintro ⟨hsize, hdata⟩
      exact ⟨hoffset, hext, fun _ => by omega, fun _ => hdata, fun h => by omega, fun h => by omega⟩
    · intro h
      have hsize := h.inlineSize hinline
      exact ⟨by omega, h.inlineData hinline⟩
  rw [if_neg hinline]
  by_cases hregular : extentType node (itemOffset node i) = 1
  · rw [if_pos hregular, isSome_fetch_bind]
    constructor
    · constructor
      · rintro ⟨hroom, hread⟩
        refine ⟨hoffset, hext, fun h => absurd h hinline, fun h => absurd h hinline,
          fun _ => by omega, fun _ => ?_⟩
        cases hdev : v.read (mapLogical v.chunkMap
            (extentDiskBytenr node (itemOffset node i)) / blockSize) (blockCount 256) with
        | none => rfl
        | some data =>
            rw [hdev] at hread
            cases hread
      · intro h
        have hroom := h.regular hregular
        rw [h.refused hregular]
        exact ⟨by omega, rfl⟩
    · intro h
      have hroom := h.regular hregular
      rw [fetch_bind_of_le (by omega), h.refused hregular]
      exact iff_of_false (fun hgo => by cases hgo) (not_not.mpr (by omega))
  · rw [if_neg hregular]
    refine ⟨iff_of_true rfl ?_, fun _ => iff_of_true rfl (by omega)⟩
    exact ⟨hoffset, hext, fun h => absurd h hinline, fun h => absurd h hinline,
      fun h => absurd h hregular, fun h => absurd h hregular⟩

theorem readInItem_isSome_iff :
    (readInItem v inode node i).isSome ↔ ReadItemInside v inode node i := by
  by_cases hid : itemAt i + 8 ≤ v.nodesize
  swap
  · unfold readInItem
    rw [isSome_fetch_bind]
    exact iff_of_false (fun h => hid h.1) fun h => hid h.1
  by_cases hinode : itemObjectid node i = inode
  swap
  · unfold readInItem
    rw [fetch_bind_of_le hid, if_pos hinode]
    exact iff_of_true rfl ⟨hid, fun h => absurd h hinode⟩
  by_cases htype : itemAt i + 9 ≤ v.nodesize
  swap
  · unfold readInItem
    rw [fetch_bind_of_le hid, if_neg (not_not.mpr hinode), isSome_fetch_bind]
    exact iff_of_false (fun h => htype (by omega)) fun h => htype (h.2 hinode).1
  by_cases hkey : itemType node i = btrfsExtentDataKey
  · rw [(readInItem_extent hid hinode htype hkey).1]
    exact ⟨fun h => ⟨hid, fun _ => ⟨htype, fun _ => h⟩⟩, fun h => (h.2 hinode).2 hkey⟩
  · unfold readInItem
    rw [fetch_bind_of_le hid, if_neg (not_not.mpr hinode), fetch_bind_of_le (by omega),
      if_pos hkey]
    exact iff_of_true rfl ⟨hid, fun _ => ⟨htype, fun h => absurd h hkey⟩⟩

/-- The loop goes on behind an item that is no extent of the file. -/
theorem readInItem_go_iff (h : ReadItemInside v inode node i) :
    readInItem v inode node i = some none ↔ ¬ IsExtent inode node i := by
  obtain ⟨hid, hrest⟩ := h
  by_cases hinode : itemObjectid node i = inode
  swap
  · unfold readInItem
    rw [fetch_bind_of_le hid, if_pos hinode]
    exact iff_of_true rfl fun h => hinode h.1
  obtain ⟨htype, hextent⟩ := hrest hinode
  by_cases hkey : itemType node i = btrfsExtentDataKey
  · rw [(readInItem_extent hid hinode htype hkey).2 (hextent hkey)]
    exact not_congr ⟨fun h => ⟨hinode, hkey, h⟩, fun h => h.2.2⟩
  · unfold readInItem
    rw [fetch_bind_of_le hid, if_neg (not_not.mpr hinode), fetch_bind_of_le (by omega),
      if_pos hkey]
    exact iff_of_true rfl fun h => hkey h.2.1

/-- The items of a leaf lie inside for reading this file, up to its first extent. -/
def ReadLeafInside (v : BtrfsVolume) (inode : Nat) (node : Mem) : Prop :=
  ∀ i, i < nodeItems node → (∀ j, j < i → ¬ IsExtent inode node j) → ReadItemInside v inode node i

theorem isSome_readLeaf_iff (hv : NodeSized v) :
    (fsTreeReadFileLeaf v inode node).isSome ↔ ReadLeafInside v inode node := by
  unfold fsTreeReadFileLeaf ReadLeafInside
  rw [isSome_leafItems hv]
  constructor
  · intro h i hi hnone
    refine readInItem_isSome_iff.mp (h i hi fun j hj => ?_)
    induction j using Nat.strong_induction_on with
    | _ j ih =>
        have hsome := h j (by omega) fun k hk => ih k hk (by omega)
        exact (readInItem_go_iff (readInItem_isSome_iff.mp hsome)).mpr (hnone j hj)
  · intro h i hi hgo
    refine readInItem_isSome_iff.mpr (h i hi fun j hj => ?_)
    have hsome : (readInItem v inode node j).isSome := by rw [hgo j hj]; rfl
    exact (readInItem_go_iff (readInItem_isSome_iff.mp hsome)).mp (hgo j hj)

/-- The walk goes on behind a leaf without an extent of the file. -/
theorem readLeaf_go_iff (hv : NodeSized v) (h : ReadLeafInside v inode node) :
    fsTreeReadFileLeaf v inode node = some none ↔
      ∀ i, i < nodeItems node → ¬ IsExtent inode node i := by
  have hheader := hv.header
  have hsize : btrfsHeaderSize = 101 := rfl
  unfold fsTreeReadFileLeaf leafItems
  rw [fetch_bind_of_le (by omega), scan_eq_go_iff]
  simp only [List.mem_range]
  constructor
  · intro hgo i hi
    have hsome : (readInItem v inode node i).isSome := by rw [hgo i hi]; rfl
    exact (readInItem_go_iff (readInItem_isSome_iff.mp hsome)).mp (hgo i hi)
  · intro hnone i hi
    exact (readInItem_go_iff (h i hi fun j hj => hnone j (by omega))).mpr (hnone i hi)

end BrightS
