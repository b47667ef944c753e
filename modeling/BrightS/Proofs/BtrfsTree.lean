/-
How far the parser of btrfs can be trusted with an image.

The parser follows what is on the disk without a check.  Its walks end, and read inside their
buffers, exactly if the image is in order in this sense (`btrfs_parsing_robust_iff`): the block
pointers from the root lead to finitely many leaves, items and entries lie in the node as far as
they are looked at, and so do the records of the system chunk array.
-/
import BrightS.Proofs.BtrfsInside

namespace BrightS

open Bytes Records Scans

variable {v : BtrfsVolume} {bytenr : Nat}

/-! ### Trees -/

/-- The block pointers from an address lead to these leaves, in the order of the walk. -/
inductive TreeLeaves (v : BtrfsVolume) : Nat → List Mem → Prop
  | unread {bytenr : Nat} (hread : readTreeNode v (mapLogical v.chunkMap bytenr) = none) :
      TreeLeaves v bytenr []
  | leaf {bytenr : Nat} {node : Mem}
      (hread : readTreeNode v (mapLogical v.chunkMap bytenr) = some node)
      (hheader : btrfsHeaderSize ≤ v.nodesize) (hlevel : nodeLevel node = 0) :
      TreeLeaves v bytenr [node]
  | inner {bytenr : Nat} {node : Mem} {below : Nat → List Mem}
      (hread : readTreeNode v (mapLogical v.chunkMap bytenr) = some node)
      (hheader : btrfsHeaderSize ≤ v.nodesize) (hlevel : nodeLevel node ≠ 0)
      (hptrs : ∀ i, i < nodeItems node → blockptrAt i + 8 ≤ v.nodesize)
      (hbelow : ∀ i, i < nodeItems node → TreeLeaves v (blockptr node i) (below i)) :
      TreeLeaves v bytenr ((List.range (nodeItems node)).flatMap below)

theorem nodesize_le_of_read {node : Mem} (hread : readTreeNode v bytenr = some node) :
    v.nodesize ≤ btrfsMaxNode := by
  unfold readTreeNode at hread
  split_ifs at hread with hmax
  exact not_lt.mp hmax

theorem TreeLeaves.sized {leaves : List Mem} (h : TreeLeaves v bytenr leaves) :
    ∀ l ∈ leaves, NodeSized v := by
  induction h with
  | unread hread => simp
  | leaf hread hheader hlevel => exact fun _ _ => ⟨nodesize_le_of_read hread, hheader⟩
  | inner hread hheader hlevel hptrs hbelow ih =>
      exact fun _ _ => ⟨nodesize_le_of_read hread, hheader⟩

section Walk

variable {ρ : Type} {leaf : Mem → Option (Option ρ)}

/-- What the walk does at a node that has been read. -/
theorem fsTreeWalk_node {node : Mem} {fuel : Nat}
    (hread : readTreeNode v (mapLogical v.chunkMap bytenr) = some node)
    (hheader : btrfsHeaderSize ≤ v.nodesize) :
    fsTreeWalk v leaf (fuel + 1) bytenr =
      if nodeLevel node = 0 then leaf node else
      scan (fun i => (fetch v.nodesize (blockptrAt i) 8 (blockptr node i)).bind
        (fsTreeWalk v leaf fuel)) (List.range (nodeItems node)) := by
  have hsize : btrfsHeaderSize = 101 := rfl
  rw [fsTreeWalk, hread]
  dsimp only
  rw [fetch_bind_of_le (by omega), fetch_bind_of_le (by omega)]

theorem header_of_walk {node : Mem} {fuel : Nat} {r : Option ρ}
    (hread : readTreeNode v (mapLogical v.chunkMap bytenr) = some node)
    (hwalk : fsTreeWalk v leaf (fuel + 1) bytenr = some r) : btrfsHeaderSize ≤ v.nodesize := by
  have hsize : btrfsHeaderSize = 101 := rfl
  rw [fsTreeWalk, hread] at hwalk
  dsimp only at hwalk
  rw [Option.bind_eq_some_iff] at hwalk
  obtain ⟨level, hlevel, -⟩ := hwalk
  have hroom := isSome_fetch.mp (Option.isSome_of_eq_some hlevel)
  omega

/-- From some depth on, the walk is the loop over the leaves. -/
theorem fsTreeWalk_leaves {leaves : List Mem} (h : TreeLeaves v bytenr leaves) :
    ∀ᶠ fuel in Filter.atTop, fsTreeWalk v leaf fuel bytenr = scan leaf leaves := by
  induction h with
  | unread hread =>
      filter_upwards [Filter.eventually_ge_atTop 1] with fuel hfuel
      obtain ⟨fuel, rfl⟩ := Nat.exists_eq_succ_of_ne_zero (Nat.ne_zero_of_lt hfuel)
      rw [fsTreeWalk, hread]
      rfl
  | leaf hread hheader hlevel =>
      filter_upwards [Filter.eventually_ge_atTop 1] with fuel hfuel
      obtain ⟨fuel, rfl⟩ := Nat.exists_eq_succ_of_ne_zero (Nat.ne_zero_of_lt hfuel)
      rw [fsTreeWalk_node hread hheader, if_pos hlevel, scan, scan, andThen_go]
  | @inner bytenr node below hread hheader hlevel hptrs hbelow ih =>
      have hall : ∀ᶠ fuel in Filter.atTop, ∀ i ∈ Finset.range (nodeItems node),
          fsTreeWalk v leaf fuel (blockptr node i) = scan leaf (below i) :=
        (Filter.eventually_all_finset _).mpr fun i hi => ih i (Finset.mem_range.mp hi)
      have hnext := (Filter.tendsto_sub_atTop_nat 1).eventually hall
      filter_upwards [hnext, Filter.eventually_ge_atTop 1] with fuel hchildren hfuel
      obtain ⟨fuel, rfl⟩ := Nat.exists_eq_succ_of_ne_zero (Nat.ne_zero_of_lt hfuel)
      rw [fsTreeWalk_node hread hheader, if_neg hlevel, scan_flatMap]
      refine scan_congr fun i hi => ?_
      rw [List.mem_range] at hi
      rw [fetch_bind_of_le (hptrs i hi)]
      exact hchildren i (Finset.mem_range.mpr hi)

/-- A walk that comes to its end goes no deeper with more fuel. -/
theorem fsTreeWalk_succ {fuel : Nat} : ∀ {bytenr : Nat} {r : Option ρ},
    fsTreeWalk v leaf fuel bytenr = some r → fsTreeWalk v leaf (fuel + 1) bytenr = some r := by
  induction fuel with
  | zero =>
      intro bytenr r h
      cases h
  | succ fuel ih =>
      intro bytenr r h
      rw [fsTreeWalk] at h ⊢
      cases hread : readTreeNode v (mapLogical v.chunkMap bytenr) with
      | none =>
          rw [hread] at h
          exact h
      | some node =>
          rw [hread] at h
          dsimp only at h ⊢
          rw [Option.bind_eq_some_iff] at h ⊢
          obtain ⟨level, hlevel, h⟩ := h
          refine ⟨level, hlevel, ?_⟩
          split_ifs at h ⊢
          · exact h
          · rw [Option.bind_eq_some_iff] at h ⊢
            obtain ⟨n, hn, h⟩ := h
            refine ⟨n, hn, scan_mono (fun i _ s hs => ?_) h⟩
            rw [Option.bind_eq_some_iff] at hs ⊢
            obtain ⟨ptr, hptr, hs⟩ := hs
            exact ⟨ptr, hptr, ih hs⟩

theorem fsTreeWalk_mono {fuel fuel' : Nat} (hle : fuel ≤ fuel') {r : Option ρ}
    (h : fsTreeWalk v leaf fuel bytenr = some r) : fsTreeWalk v leaf fuel' bytenr = some r := by
  induction fuel', hle using Nat.le_induction with
  | base => exact h
  | succ n _ ih => exact fsTreeWalk_succ ih

/-- A walk over a tree that ends is the loop over its leaves. -/
theorem fsTreeWalk_eq_scan {leaves : List Mem} (h : TreeLeaves v bytenr leaves) {fuel : Nat}
    {r : Option ρ} (hwalk : fsTreeWalk v leaf fuel bytenr = some r) : some r = scan leaf leaves := by
  have hwalks : ∀ᶠ fuel in Filter.atTop, fsTreeWalk v leaf fuel bytenr = scan leaf leaves :=
    fsTreeWalk_leaves h
  obtain ⟨depth, hdepth⟩ := Filter.eventually_atTop.mp hwalks
  rw [← hdepth _ (Nat.le_max_right fuel depth)]
  exact (fsTreeWalk_mono (Nat.le_max_left fuel depth) hwalk).symm

/-- On a tree, the walk ends exactly if the loop over the leaves is not stuck. -/
theorem fsTreeWalk_ends_iff {leaves : List Mem} (h : TreeLeaves v bytenr leaves) :
    (∃ fuel r, fsTreeWalk v leaf fuel bytenr = some r) ↔ (scan leaf leaves).isSome := by
  have hwalks : ∀ᶠ fuel in Filter.atTop, fsTreeWalk v leaf fuel bytenr = scan leaf leaves :=
    fsTreeWalk_leaves h
  obtain ⟨depth, hdepth⟩ := Filter.eventually_atTop.mp hwalks
  constructor
  · rintro ⟨fuel, r, hwalk⟩
    rw [← fsTreeWalk_eq_scan h hwalk]
    rfl
  · intro hsome
    obtain ⟨r, hr⟩ := Option.isSome_iff_exists.mp hsome
    exact ⟨depth, r, (hdepth depth le_rfl).trans hr⟩

/-- A walk that returns nothing has come to leaves that return nothing. -/
theorem treeLeaves_of_walk {fuel : Nat} : ∀ {bytenr : Nat},
    fsTreeWalk v leaf fuel bytenr = some none →
    ∃ leaves, TreeLeaves v bytenr leaves ∧ ∀ l ∈ leaves, leaf l = some none := by
  induction fuel with
  | zero =>
      intro bytenr h
      cases h
  | succ fuel ih =>
      intro bytenr h
      cases hread : readTreeNode v (mapLogical v.chunkMap bytenr) with
      | none => exact ⟨[], .unread hread, by simp⟩
      | some node =>
          have hheader := header_of_walk hread h
          rw [fsTreeWalk_node hread hheader] at h
          by_cases hlevel : nodeLevel node = 0
          · rw [if_pos hlevel] at h
            exact ⟨[node], .leaf hread hheader hlevel, List.forall_mem_singleton.mpr h⟩
          · rw [if_neg hlevel, scan_eq_go_iff] at h
            have hchild : ∀ i, ∃ leaves, i < nodeItems node →
                blockptrAt i + 8 ≤ v.nodesize ∧ TreeLeaves v (blockptr node i) leaves ∧
                  ∀ l ∈ leaves, leaf l = some none := by
              intro i
              by_cases hi : i < nodeItems node
              · have hgo := h i (List.mem_range.mpr hi)
                rw [Option.bind_eq_some_iff] at hgo
                obtain ⟨ptr, hptr, hwalk⟩ := hgo
                have hroom := isSome_fetch.mp (Option.isSome_of_eq_some hptr)
                rw [fetch_of_le hroom] at hptr
                obtain ⟨leaves, hleaves, hnone⟩ := ih hwalk
                rw [← Option.some.inj hptr] at hleaves
                exact ⟨leaves, fun _ => ⟨hroom, hleaves, hnone⟩⟩
              · exact ⟨[], fun h => absurd h hi⟩
            choose below hbelow using hchild
            refine ⟨_, .inner hread hheader hlevel (fun i hi => (hbelow i hi).1)
              fun i hi => (hbelow i hi).2.1, fun l hl => ?_⟩
            obtain ⟨i, hi, hl⟩ := List.mem_flatMap.mp hl
            exact (hbelow i (List.mem_range.mp hi)).2.2 l hl

/-- A walk returns what a leaf returns. -/
theorem leaf_of_walk {fuel : Nat} : ∀ {bytenr : Nat} {r : ρ},
    fsTreeWalk v leaf fuel bytenr = some (some r) →
    NodeSized v ∧ ∃ node, leaf node = some (some r) := by
  induction fuel with
  | zero =>
      intro bytenr r h
      cases h
  | succ fuel ih =>
      intro bytenr r h
      cases hread : readTreeNode v (mapLogical v.chunkMap bytenr) with
      | none =>
          rw [fsTreeWalk, hread] at h
          cases h
      | some node =>
          have hheader := header_of_walk hread h
          rw [fsTreeWalk_node hread hheader] at h
          split_ifs at h
          · exact ⟨⟨nodesize_le_of_read hread, hheader⟩, node, h⟩
          · obtain ⟨i, -, hi⟩ := mem_of_scan_ret h
            rw [Option.bind_eq_some_iff] at hi
            obtain ⟨ptr, -, hwalk⟩ := hi
            exact ih hwalk

end Walk

/-! ### Images -/

/-- A file can be read from the leaves: up to the first extent, what is looked at lies inside. -/
def FileInside (v : BtrfsVolume) (inode : Nat) : List Mem → Prop
  | [] => True
  | l :: rest => ReadLeafInside v inode l ∧
      ((∀ i, i < nodeItems l → ¬ IsExtent inode l i) → FileInside v inode rest)

theorem isSome_scan_readLeaf {inode : Nat} {leaves : List Mem} (hv : ∀ l ∈ leaves, NodeSized v) :
    (scan (fsTreeReadFileLeaf v inode) leaves).isSome ↔ FileInside v inode leaves := by
  induction leaves with
  | nil => exact iff_of_true rfl trivial
  | cons l rest ih =>
      obtain ⟨hl, hrest⟩ := List.forall_mem_cons.mp hv
      rw [scan_isSome_cons, isSome_readLeaf_iff hl, ih hrest, FileInside]
      exact and_congr_right fun h => imp_congr_left (readLeaf_go_iff hl h)

/-- The records of the system chunk array lie inside, as far as they are read. -/
inductive RecordsInside (array : Mem) (size : Nat) : Nat → Prop
  | done {off : Nat} (hend : size < off + btrfsKeySize + btrfsChunkSize) :
      RecordsInside array size off
  | other {off : Nat} (hkey : off + 9 ≤ sysChunkArraySize)
      (htype : byteAt array (off + 8) ≠ btrfsChunkItemKey) : RecordsInside array size off
  | chunk {off : Nat} (hstripe : off + btrfsKeySize + btrfsChunkSize + btrfsStripeSize ≤
        sysChunkArraySize)
      (next : RecordsInside array size (off + btrfsKeySize + btrfsChunkSize +
        btrfsStripeSize * halfAt array (off + btrfsKeySize + 44))) :
      RecordsInside array size off

theorem sysChunkLoop_isSome_iff {array : Mem} {size : Nat} (fuel : Nat) :
    ∀ {off : Nat} {map : List ChunkMap}, 0 < fuel → sysChunkArraySize < fuel + off →
      ((sysChunkLoop array size fuel off map).isSome ↔ RecordsInside array size off) := by
  have hkeySize : btrfsKeySize = 17 := rfl
  have hchunkSize : btrfsChunkSize = 48 := rfl
  have hstripeSize : btrfsStripeSize = 16 := rfl
  have harray : sysChunkArraySize = 2048 := rfl
  induction fuel with
  | zero => exact fun h => absurd h (by decide)
  | succ fuel ih =>
      intro off map _ hfuel
      rw [sysChunkLoop]
      by_cases hin : off + btrfsKeySize + btrfsChunkSize ≤ size
      swap
      · rw [if_neg hin]
        exact iff_of_true rfl (.done (by omega))
      rw [if_pos hin]
      dsimp only
      rw [isSome_fetch_bind]
      by_cases hkey : off + 9 ≤ sysChunkArraySize
      swap
      · refine iff_of_false (fun h => hkey (by omega)) fun h => ?_
        cases h with
        | done hend => omega
        | other hroom _ => exact hkey hroom
        | chunk hroom _ => omega
      by_cases htype : byteAt array (off + 8) = btrfsChunkItemKey
      swap
      · rw [if_pos htype]
        exact iff_of_true ⟨by omega, rfl⟩ (.other hkey htype)
      have hchunk : (off + btrfsKeySize) % 2 ^ 32 = off + btrfsKeySize :=
        Nat.mod_eq_of_lt (by omega)
      have hstripe : (off + btrfsKeySize + btrfsChunkSize) % 2 ^ 32 =
          off + btrfsKeySize + btrfsChunkSize := Nat.mod_eq_of_lt (by omega)
      rw [if_neg (not_not.mpr htype), hchunk, hstripe]
      simp only [isSome_fetch_bind]
      have hstripes : halfAt array (off + btrfsKeySize + 44) < 2 ^ 16 := halfAt_lt ..
      have hlen : btrfsStripeSize * halfAt array (off + btrfsKeySize + 44) =
          16 * halfAt array (off + btrfsKeySize + 44) := rfl
      have hnext : (off + btrfsKeySize + btrfsChunkSize +
          btrfsStripeSize * halfAt array (off + btrfsKeySize + 44)) % 2 ^ 32 =
          off + btrfsKeySize + btrfsChunkSize +
            btrfsStripeSize * halfAt array (off + btrfsKeySize + 44) :=
        Nat.mod_eq_of_lt (by omega)
      rw [hnext]
      constructor
      · rintro ⟨-, -, -, -, hroom, hrest⟩
        exact .chunk (by omega) ((ih (by omega) (by omega)).mp hrest)
      · intro h
        cases h with
        | done hend => omega
        | other _ hother => exact absurd htype hother
        | chunk hroom next =>
            exact ⟨by omega, by omega, by omega, by omega, by omega,
              (ih (by omega) (by omega)).mpr next⟩

/-- The walks end and read inside their buffers, for every directory, name and file. -/
structure ParsingRobust (v : BtrfsVolume) (bytenr : Nat) (array : Mem) (size : Nat) : Prop where
  find : ∀ dir name, dir < 2 ^ 64 → 0 ∉ name →
    ∃ fuel r, fsTreeFindInodeByName v dir name fuel bytenr = some r
  readFile : ∀ inode, inode < 2 ^ 64 → ∃ fuel r, fsTreeReadFile v inode fuel bytenr = some r
  chunks : ∃ r, parseSysChunkArray array size = some r

/-- The image is in order, as far as the parser looks at it. -/
structure ImageInside (v : BtrfsVolume) (bytenr : Nat) (array : Mem) (size : Nat) : Prop where
  tree : ∃ leaves, TreeLeaves v bytenr leaves ∧
    (∀ l ∈ leaves, ∀ dir, dir < 2 ^ 64 → FindLeafInside v l dir) ∧
    ∀ inode, inode < 2 ^ 64 → FileInside v inode leaves
  chunks : RecordsInside array size 0

theorem chunks_robust_iff {array : Mem} {size : Nat} :
    (∃ r, parseSysChunkArray array size = some r) ↔ RecordsInside array size 0 := by
  rw [← Option.isSome_iff_exists, parseSysChunkArray, Option.isSome_map,
    sysChunkLoop_isSome_iff _ (Nat.succ_pos _) (by omega)]

theorem isSome_scan_findLeaf {dir : Nat} {name : List Byte} {leaves : List Mem}
    (hv : ∀ l ∈ leaves, NodeSized v) (h : ∀ l ∈ leaves, FindLeafInside v l dir) :
    (scan (fsTreeFindInodeByNameLeaf v dir name) leaves).isSome := by
  induction leaves with
  | nil => rfl
  | cons l rest ih =>
      rw [List.forall_mem_cons] at hv h
      exact scan_isSome_cons.mpr ⟨findLeaf_isSome hv.1 h.1 name, fun _ => ih hv.2 h.2⟩

/-- A lookup for a long name that ends has come to the leaves of a tree. -/
theorem treeLeaves_of_long {dir fuel : Nat} {name : List Byte} (hname : LongName name)
    {r : Option Nat} (hwalk : fsTreeFindInodeByName v dir name fuel bytenr = some r) :
    r = none ∧ ∃ leaves, TreeLeaves v bytenr leaves ∧
      ∀ l ∈ leaves, fsTreeFindInodeByNameLeaf v dir name l = some none := by
  cases r with
  | none => exact ⟨rfl, treeLeaves_of_walk hwalk⟩
  | some ino =>
      obtain ⟨hv, node, hleaf⟩ := leaf_of_walk hwalk
      cases findLeaf_long hv.max hname hleaf

theorem ParsingRobust.inside {array : Mem} {size : Nat} (h : ParsingRobust v bytenr array size) :
    ImageInside v bytenr array size := by
  obtain ⟨hfind, hread, hchunks⟩ := h
  have hlong := longName_likeNode (fun _ => 0) 0
  obtain ⟨fuel, r, hwalk⟩ := hfind 0 _ (by decide) hlong.clean
  obtain ⟨-, leaves, hleaves, -⟩ := treeLeaves_of_long hlong hwalk
  refine ⟨⟨leaves, hleaves, fun l hl dir hdir => ?_, fun inode hinode => ?_⟩,
    chunks_robust_iff.mp hchunks⟩
  · refine findLeafInside_of_long (hleaves.sized l hl) fun name hname => ?_
    obtain ⟨fuel, r, hwalk⟩ := hfind dir name hdir hname.clean
    obtain ⟨rfl, -⟩ := treeLeaves_of_long hname hwalk
    have hgo := fsTreeWalk_eq_scan hleaves hwalk
    rw [eq_comm, scan_eq_go_iff] at hgo
    rw [hgo l hl]
    rfl
  · exact (isSome_scan_readLeaf hleaves.sized).mp
      ((fsTreeWalk_ends_iff hleaves).mp (hread inode hinode))

theorem ImageInside.robust {array : Mem} {size : Nat} (h : ImageInside v bytenr array size) :
    ParsingRobust v bytenr array size := by
  obtain ⟨⟨leaves, hleaves, hfind, hfile⟩, hchunks⟩ := h
  refine ⟨fun dir name hdir _ => ?_, fun inode hinode => ?_, chunks_robust_iff.mpr hchunks⟩
  · exact (fsTreeWalk_ends_iff hleaves).mpr
      (isSome_scan_findLeaf hleaves.sized fun l hl => hfind l hl dir hdir)
  · exact (fsTreeWalk_ends_iff hleaves).mpr
      ((isSome_scan_readLeaf hleaves.sized).mpr (hfile inode hinode))

/--
**When parsing is robust.**  The parser ends and reads inside its buffers, for all directories,
names and files, exactly if the image is in order as far as it is looked at.
-/
theorem btrfs_parsing_robust_iff (v : BtrfsVolume) (bytenr : Nat) (array : Mem) (size : Nat) :
    ParsingRobust v bytenr array size ↔ ImageInside v bytenr array size :=
  ⟨ParsingRobust.inside, ImageInside.robust⟩

/-! ### Images in order, and others -/

/-- Packed entries lie inside. -/
theorem Packed.inside {limit : Nat} {node : Mem} {itemEnd off : Nat} {entries : List DirEntry}
    (h : Packed node itemEnd off entries) (hend : itemEnd ≤ limit) :
    EntriesInside limit node itemEnd off := by
  have hsize : btrfsDirItemSize = 30 := rfl
  induction h with
  | nil => exact .done (by omega)
  | cons _ hlen _ _ _ hrest ih =>
      have hle := hrest.le
      exact .named (by omega) (fun j hj _ => by omega) ih

/-- A well-formed leaf is in order for every lookup. -/
theorem WellFormedLeaf.findInside {node : Mem} {entries : Nat → List DirEntry}
    (h : WellFormedLeaf v node entries) (dir : Nat) : FindLeafInside v node dir := by
  have hitem : btrfsItemSize = 25 := rfl
  have hmax : btrfsMaxNode = 16384 := rfl
  have hnodesize := h.nodesize
  intro i hi _
  have hroom := h.items i hi
  have hrange := h.ranges i hi
  refine ⟨by omega, fun _ => ⟨by omega, fun hkey => ⟨hroom, ?_⟩⟩⟩
  rw [Nat.mod_eq_of_lt (by omega)]
  exact (h.packed i hi hkey).inside hrange

/-- A lookup from a well-formed leaf ends. -/
theorem WellFormedLeaf.find_ends {node : Mem} {entries : Nat → List DirEntry}
    (h : WellFormedLeaf v node entries)
    (hread : readTreeNode v (mapLogical v.chunkMap bytenr) = some node)
    (hlevel : nodeLevel node = 0) (dir : Nat) (name : List Byte) :
    ∃ fuel r, fsTreeFindInodeByName v dir name fuel bytenr = some r := by
  have htree : TreeLeaves v bytenr [node] := .leaf hread h.header hlevel
  refine (fsTreeWalk_ends_iff htree).mpr (isSome_scan_findLeaf htree.sized ?_)
  exact List.forall_mem_singleton.mpr (h.findInside dir)

/-- A node of level 1 whose only pointer leads to itself. -/
def cyclicNode : Mem := onto (List.replicate 96 0 ++ store32 1 ++ [1]) fun _ => 0

def cyclicVolume : BtrfsVolume where
  nodesize := 4096
  chunkMap := []
  read := fun lba _ => if lba = 0 then some cyclicNode else none

theorem fsTreeWalk_cyclic {ρ : Type} (leaf : Mem → Option (Option ρ)) (fuel : Nat) :
    fsTreeWalk cyclicVolume leaf fuel 0 = none := by
  induction fuel with
  | zero => rfl
  | succ fuel ih =>
      have hread : readTreeNode cyclicVolume (mapLogical cyclicVolume.chunkMap 0) =
          some cyclicNode := rfl
      have hlevel : nodeLevel cyclicNode ≠ 0 := by decide +kernel
      have hitems : nodeItems cyclicNode = 1 := by decide +kernel
      have hptr : blockptr cyclicNode 0 = 0 := by decide +kernel
      rw [fsTreeWalk_node hread (by decide), if_neg hlevel, hitems]
      change andThen ((fetch 4096 (blockptrAt 0) 8 (blockptr cyclicNode 0)).bind
        (fsTreeWalk cyclicVolume leaf fuel)) (some none) = none
      rw [andThen_go, hptr, fetch_bind_of_le (by decide)]
      exact ih

/-- A node below itself is walked without end. -/
theorem btrfs_parsing_cycle :
    (∀ dir name fuel, fsTreeFindInodeByName cyclicVolume dir name fuel 0 = none) ∧
      ¬ ParsingRobust cyclicVolume 0 (fun _ => 0) 0 := by
  have hnone : ∀ dir name fuel, fsTreeFindInodeByName cyclicVolume dir name fuel 0 = none :=
    fun dir name fuel => fsTreeWalk_cyclic _ fuel
  refine ⟨hnone, fun h => ?_⟩
  obtain ⟨fuel, r, hcall⟩ := h.find 0 [] (by decide) (by decide)
  rw [hnone] at hcall
  cases hcall

end BrightS
