/-
Which blocks the nodes of created files go to.

The allocator hands out addresses one byte after another, so the nodes tile the bytes from its
start on.  No node is larger than a block, and each is written to the block that its address is
in.  So two nodes that follow each other are in different blocks exactly if the first of them
reaches the end of its block.
-/
import BrightS.Lib.Runs
import BrightS.Kernel.Btrfs

namespace BrightS

open Bytes Runs

/-! ### One node -/

section Node

variable {fs : Btrfs} {disk : Disk} {call : CreateFile}

/-- The bytes of the node of a creation. -/
def CreateFile.nodeSize (call : CreateFile) : Nat :=
  83 + (btrfsNameBytes call.name).length +
    min call.len (4096 - (83 + (btrfsNameBytes call.name).length))

theorem length_btrfsNameBytes (name : CStr) : (btrfsNameBytes name).length ≤ 255 := by
  unfold btrfsNameBytes
  rw [List.length_map, List.length_take]
  exact min_le_left _ _

theorem length_btrfsNodeBytes (ino : Nat) (call : CreateFile) :
    (btrfsNodeBytes ino call.name call.data call.len).length = call.nodeSize := by
  unfold btrfsNodeBytes CreateFile.nodeSize btrfsDirItem btrfsExtentItem slice
  simp [store64]
  omega

theorem nodeSize_bounds (call : CreateFile) : 83 ≤ call.nodeSize ∧ call.nodeSize ≤ blockSize := by
  have hname := length_btrfsNameBytes call.name
  unfold CreateFile.nodeSize blockSize
  omega

/-- A node is written as one block. -/
theorem blockCount_nodeSize : blockCount call.nodeSize = 1 := by
  obtain ⟨hlo, hhi⟩ := nodeSize_bounds call
  unfold blockCount blockSize at *
  omega

/-- The creation gets as far as the allocator. -/
def CreateFile.Accepted (call : CreateFile) : Prop := call.totalSize ≤ 3000

/-- Where the next node goes. -/
def Btrfs.nextAddr (fs : Btrfs) (disk : Disk) : Nat :=
  if fs.nextFree = 0 then btrfsFirstFree disk else fs.nextFree

theorem btrfsFirstFree_bounds (disk : Disk) : 0 < btrfsFirstFree disk ∧ btrfsFirstFree disk < 2 ^ 64 := by
  have hlt := (load64 (disk (btrfsSuperOffset / blockSize)) 112).isLt
  unfold btrfsFirstFree superTotalBytes
  omega

theorem btrfsAllocBlock_eq (hdisk : fs.disk = some disk) (size : Nat) :
    btrfsAllocBlock fs size =
      ({ fs with nextFree := (fs.nextAddr disk + size) % 2 ^ 64 }, fs.nextAddr disk) := by
  unfold btrfsAllocBlock Btrfs.nextAddr
  by_cases hfirst : fs.nextFree = 0
  · rw [if_pos hfirst, if_pos hfirst, hdisk]
  · rw [if_neg hfirst, if_neg hfirst]

theorem nextAddr_pos : 0 < fs.nextAddr disk := by
  obtain ⟨hpos, -⟩ := btrfsFirstFree_bounds disk
  unfold Btrfs.nextAddr
  split_ifs with hfirst
  · exact hpos
  · exact Nat.pos_of_ne_zero hfirst

theorem btrfsWriteTreeNode_eq (hdisk : fs.disk = some disk) (bytes : List Byte) (stack : Mem) :
    btrfsWriteTreeNode fs bytes stack =
      ({ fs with
          nextFree := (fs.nextAddr disk + bytes.length) % 2 ^ 64
          disk := some (disk.write (fs.nextAddr disk / blockSize) (onto bytes stack)
            (blockCount bytes.length)) }, fs.nextAddr disk) := by
  unfold btrfsWriteTreeNode
  rw [btrfsAllocBlock_eq hdisk]
  dsimp only
  rw [if_neg nextAddr_pos.ne', btrfsRawWrite, hdisk, Option.map_some]

/-- A successful creation writes its node to the block of the next address and moves the allocator
behind it. -/
theorem btrfsCreate_eq (hroot : fs.rootOk = true) (hdisk : fs.disk = some disk)
    (haccepted : call.Accepted) :
    ∃ node, (btrfsCreateFileInternal fs call).2 = some node ∧
      node.bytenr = fs.nextAddr disk ∧ node.bytes.length = call.nodeSize ∧
      (btrfsCreateFileInternal fs call).1.rootOk = true ∧
      (btrfsCreateFileInternal fs call).1.nextFree =
        (fs.nextAddr disk + call.nodeSize) % 2 ^ 64 ∧
      (btrfsCreateFileInternal fs call).1.disk = some (disk.write (node.bytenr / blockSize)
        (onto node.bytes call.stack) 1) := by
  obtain ⟨ino, hino⟩ : ∃ ino, ino = if fs.nextIno = 0 then (fs.rootDirid + 256) % 2 ^ 64
    else fs.nextIno := ⟨_, rfl⟩
  have hlength := length_btrfsNodeBytes ino call
  have hcreate : btrfsCreateFileInternal fs call =
      ({ fs with
          nextIno := (ino + 1) % 2 ^ 64
          nextFree := (fs.nextAddr disk + call.nodeSize) % 2 ^ 64
          disk := some (disk.write (fs.nextAddr disk / blockSize)
            (onto (btrfsNodeBytes ino call.name call.data call.len) call.stack) 1) },
        some ⟨fs.nextAddr disk, btrfsNodeBytes ino call.name call.data call.len⟩) := by
    have hok : ¬ fs.rootOk = false := by
      rw [hroot]
      exact Bool.false_ne_true.symm
    have hwrite := btrfsWriteTreeNode_eq
      (show ({ fs with nextIno := (ino + 1) % 2 ^ 64 } : Btrfs).disk = some disk from hdisk)
      (btrfsNodeBytes ino call.name call.data call.len) call.stack
    rw [hlength, blockCount_nodeSize] at hwrite
    unfold btrfsCreateFileInternal
    rw [if_neg hok, ← hino]
    dsimp only
    rw [if_neg (not_lt.mpr haccepted), hwrite]
    exact if_neg nextAddr_pos.ne'
  rw [hcreate]
  exact ⟨_, rfl, rfl, hlength, hroot, rfl, rfl⟩

end Node

/-! ### Sequences of creations -/

/-- The blocks that a node is written to. -/
def BtrfsNode.Uses (node : BtrfsNode) (b : Nat) : Prop :=
  node.bytenr / blockSize ≤ b ∧ b < node.bytenr / blockSize + blockCount node.bytes.length

/-- No block is used by both. -/
def NodesApart (m n : BtrfsNode) : Prop := ∀ b, ¬ (m.Uses b ∧ n.Uses b)

/-- Reading as many bytes at the address gives those of the node. -/
def BtrfsNode.ReadsBack (disk : Disk) (node : BtrfsNode) : Prop :=
  Holds (btrfsRawRead disk node.bytenr) 0 node.bytes

/-- The module and the nodes that were written so far. -/
structure BtrfsRun where
  fs : Btrfs
  nodes : List BtrfsNode

def CreateStep (r : BtrfsRun) (call : CreateFile) (r' : BtrfsRun) : Prop :=
  r' = { fs := (btrfsCreateFileInternal r.fs call).1
         nodes := r.nodes ++ (btrfsCreateFileInternal r.fs call).2.toList }

/-- Of nodes of these sizes, from the address on, all but the last reach the end of the block they
start in. -/
def FillBlocks : Nat → List Nat → Prop
  | _, [] => True
  | _, [_] => True
  | addr, size :: rest => blockSize ≤ addr % blockSize + size ∧ FillBlocks (addr + size) rest

section Sequences

variable {r r' : BtrfsRun} {calls : List CreateFile} {disk : Disk} {node m n : BtrfsNode}

theorem uses_iff {b : Nat} {call : CreateFile} (hsize : node.bytes.length = call.nodeSize) :
    node.Uses b ↔ b = node.bytenr / blockSize := by
  unfold BtrfsNode.Uses
  rw [hsize, blockCount_nodeSize]
  omega

/-- The nodes that a run adds, one after another from the next address of the allocator. -/
inductive Added : Nat → List CreateFile → List BtrfsNode → Prop where
  | nil (addr : Nat) : Added addr [] []
  | cons {addr : Nat} {call : CreateFile} {calls : List CreateFile} {node : BtrfsNode}
      {nodes : List BtrfsNode} : node.bytenr = addr → node.bytes.length = call.nodeSize →
      Added (addr + call.nodeSize) calls nodes → Added addr (call :: calls) (node :: nodes)

theorem Added.bytenr_ge {addr : Nat} {nodes : List BtrfsNode} (h : Added addr calls nodes) :
    ∀ n ∈ nodes, addr ≤ n.bytenr ∧ n.Uses (n.bytenr / blockSize) ∧
      ∀ b, n.Uses b → b = n.bytenr / blockSize := by
  induction h with
  | nil => exact fun n hn => absurd hn List.not_mem_nil
  | cons haddr hsize _ ih =>
      intro n hn
      rcases List.mem_cons.mp hn with rfl | hn
      · exact ⟨haddr.ge, (uses_iff hsize).mpr rfl, fun b => (uses_iff hsize).mp⟩
      · obtain ⟨hge, huses⟩ := ih n hn
        exact ⟨by omega, huses⟩

theorem Added.length_eq {addr : Nat} {nodes : List BtrfsNode} (h : Added addr calls nodes) :
    nodes.length = calls.length := by
  induction h with
  | nil => rfl
  | cons _ _ _ ih => rw [List.length_cons, List.length_cons, ih]

/-- **Nodes are apart exactly if each but the last reaches the end of its block.** -/
theorem Added.apart_iff {addr : Nat} {nodes : List BtrfsNode} (h : Added addr calls nodes) :
    nodes.Pairwise NodesApart ↔ FillBlocks addr (calls.map (·.nodeSize)) := by
  induction h with
  | nil => exact ⟨fun _ => trivial, fun _ => List.Pairwise.nil⟩
  | @cons addr call calls node nodes haddr hsize hrest ih =>
      rw [List.pairwise_cons, ih, List.map_cons]
      cases hrest with
      | nil =>
          rw [List.map_nil]
          exact ⟨fun _ => trivial, fun _ => ⟨fun n hn => absurd hn List.not_mem_nil, trivial⟩⟩
      | @cons _ next calls' node' nodes' haddr' hsize' hrest' =>
          have hlater := (Added.cons haddr' hsize' hrest').bytenr_ge
          have hfills : FillBlocks addr (call.nodeSize :: (next :: calls').map (·.nodeSize)) ↔
              blockSize ≤ addr % blockSize + call.nodeSize ∧
                FillBlocks (addr + call.nodeSize) ((next :: calls').map (·.nodeSize)) := Iff.rfl
          rw [hfills]
          refine and_congr_left fun _ => ⟨fun hapart => ?_, fun hfill n hn b hboth => ?_⟩
          · -- The next node starts where this one ends, so not in the same block.
            by_contra hshort
            have hnext := hlater node' (List.mem_cons_self ..)
            refine hapart node' (List.mem_cons_self ..) (node'.bytenr / blockSize) ⟨?_, hnext.2.1⟩
            rw [uses_iff hsize, haddr, haddr']
            unfold blockSize at *
            omega
          · obtain ⟨hge, -, honly⟩ := hlater n hn
            have hb := (uses_iff hsize).mp hboth.1
            have hb' := honly b hboth.2
            unfold blockSize at *
            omega

theorem btrfsRawRead_apply {bytenr i : Nat} (hi : i < blockSize) :
    btrfsRawRead disk bytenr (0 + i) = disk (bytenr / blockSize) i := by
  unfold btrfsRawRead Disk.read
  rw [Nat.zero_add, Nat.div_eq_of_lt hi, Nat.mod_eq_of_lt hi, Nat.add_zero]

/-- The buffer that is read back from the block just written. -/
theorem readsBack_written (disk : Disk) (stack : Mem) (hle : node.bytes.length ≤ blockSize) :
    node.ReadsBack (disk.write (node.bytenr / blockSize) (onto node.bytes stack) 1) := by
  intro i hi
  have hheld := holds_onto node.bytes stack i hi
  rw [btrfsRawRead_apply (lt_of_lt_of_le hi hle)]
  unfold Disk.write
  rw [if_pos ⟨le_refl _, Nat.lt_succ_self _⟩, Nat.sub_self, Nat.zero_mul]
  exact hheld

/-- Writing another block changes nothing of the node. -/
theorem BtrfsNode.ReadsBack.write {stack : Mem} (h : m.ReadsBack disk)
    (hle : m.bytes.length ≤ blockSize) (hne : n.bytenr / blockSize ≠ m.bytenr / blockSize) :
    m.ReadsBack (disk.write (n.bytenr / blockSize) (onto n.bytes stack) 1) := by
  intro i hi
  have hheld := h i hi
  rw [btrfsRawRead_apply (lt_of_lt_of_le hi hle)] at hheld ⊢
  unfold Disk.write
  rw [if_neg (by omega)]
  exact hheld

/-- What a run of successful creations does from any state on: it adds its nodes, and whatever is
apart from them can still be read. -/
theorem creations_added (hroot : r.fs.rootOk = true) (hdisk : r.fs.disk = some disk)
    (haccepted : ∀ call ∈ calls, call.Accepted)
    (hfits : r.fs.nextAddr disk + (calls.map (·.nodeSize)).sum < 2 ^ 64)
    (hrun : Executes CreateStep r calls r') :
    ∃ nodes disk', r'.nodes = r.nodes ++ nodes ∧ r'.fs.disk = some disk' ∧
      Added (r.fs.nextAddr disk) calls nodes ∧
      (∀ m : BtrfsNode, 0 < m.bytes.length → m.bytes.length ≤ blockSize →
        (∀ n ∈ nodes, NodesApart m n) → m.ReadsBack disk → m.ReadsBack disk') ∧
      (nodes.Pairwise NodesApart → ∀ n ∈ nodes, n.ReadsBack disk') := by
  induction hrun generalizing disk with
  | nil r =>
      exact ⟨[], disk, (List.append_nil _).symm, hdisk, .nil _, fun _ _ _ _ h => h,
        fun _ n hn => absurd hn List.not_mem_nil⟩
  | @cons r mid final call rest hstep hrest ih =>
      obtain ⟨node, hnode, haddr, hsize, hroot', hfree, hdisk'⟩ :=
        btrfsCreate_eq hroot hdisk (haccepted call (List.mem_cons_self ..))
      obtain ⟨hlo, hhi⟩ := nodeSize_bounds call
      rw [List.map_cons, List.sum_cons] at hfits
      rw [Nat.mod_eq_of_lt (by omega)] at hfree
      have hmid : mid = ⟨(btrfsCreateFileInternal r.fs call).1, r.nodes ++ [node]⟩ := by
        rw [CreateStep, hnode] at hstep
        exact hstep
      subst hmid
      have hnext : ∀ disk : Disk, Btrfs.nextAddr (btrfsCreateFileInternal r.fs call).1 disk =
          node.bytenr + call.nodeSize := by
        intro disk
        unfold Btrfs.nextAddr
        rw [hfree, if_neg (by omega), haddr]
      obtain ⟨nodes, disk', hnodes, hdisk'', hadded, hkeep, hread⟩ :=
        ih hroot' hdisk' (fun c hc => haccepted c (List.mem_cons_of_mem call hc))
          (by rw [hnext, haddr]; omega)
      rw [hnext] at hadded
      have hwritten := readsBack_written disk call.stack (hsize.le.trans hhi)
      refine ⟨node :: nodes, disk', ?_, hdisk'', .cons haddr hsize (haddr ▸ hadded),
        fun m hpos hle hapart hm => ?_, fun hpair n hn => ?_⟩
      · exact hnodes.trans (List.append_assoc r.nodes [node] nodes)
      · refine hkeep m hpos hle (fun n hn => hapart n (List.mem_cons_of_mem node hn)) ?_
        refine hm.write hle fun heq => ?_
        have huses : m.Uses (m.bytenr / blockSize) := by
          unfold BtrfsNode.Uses blockCount blockSize at *
          omega
        exact hapart node (List.mem_cons_self ..) (m.bytenr / blockSize)
          ⟨huses, (uses_iff hsize).mpr heq.symm⟩
      · rcases List.mem_cons.mp hn with rfl | hn
        · exact hkeep n (by omega) (hsize.le.trans hhi) (List.pairwise_cons.mp hpair).1 hwritten
        · exact hread (List.pairwise_cons.mp hpair).2 n hn

end Sequences

/-- **The blocks of the nodes are disjoint exactly if all but the last reach the end of theirs, and
then every node can be read back.** -/
theorem btrfs_nodes_apart_iff {fs : Btrfs} {disk : Disk} {calls : List CreateFile} {r : BtrfsRun}
    (hroot : fs.rootOk = true) (hdisk : fs.disk = some disk) (hstart : fs.nextFree = 0)
    (haccepted : ∀ call ∈ calls, call.Accepted)
    (hfits : btrfsFirstFree disk + (calls.map (·.nodeSize)).sum < 2 ^ 64)
    (hrun : Executes CreateStep ⟨fs, []⟩ calls r) :
    r.nodes.length = calls.length ∧
      (r.nodes.Pairwise NodesApart ↔
        FillBlocks (btrfsFirstFree disk) (calls.map (·.nodeSize))) ∧
      (r.nodes.Pairwise NodesApart →
        ∃ disk', r.fs.disk = some disk' ∧ ∀ n ∈ r.nodes, n.ReadsBack disk') := by
  have hnext : fs.nextAddr disk = btrfsFirstFree disk := if_pos hstart
  obtain ⟨nodes, disk', hnodes, hdisk', hadded, -, hread⟩ :=
    creations_added (r := ⟨fs, []⟩) hroot hdisk haccepted (hnext.symm ▸ hfits) hrun
  rw [List.nil_append] at hnodes
  rw [hnext] at hadded
  rw [hnodes]
  exact ⟨hadded.length_eq, hadded.apart_iff, fun hpair => ⟨disk', hdisk', hread hpair⟩⟩


/-- A disk whose superblock gives this size. -/
def diskOfSize (bytes : Nat) : Disk :=
  fun _ => onto (List.replicate 112 0 ++ store64 (BitVec.ofNat 64 bytes)) fun _ => 0

/-- An empty file. -/
def emptyFile (name : CStr) : CreateFile where
  name := name
  data _ := 0
  len := 0
  len_lt := by decide
  stack _ := 0

/-- A mounted btrfs before the first creation. -/
def mountedBtrfs (disk : Disk) : Btrfs :=
  { rootOk := true, rootDirid := 256, nextIno := 0, nextFree := 0, disk := some disk }

/-- The second half of the disk starts at the last byte of a block. -/
theorem btrfs_nodes_apart_two : ∃ r,
    Executes CreateStep ⟨mountedBtrfs (diskOfSize 134225918), []⟩
      [emptyFile ['a'], emptyFile ['b']] r ∧
    r.nodes.length = 2 ∧ r.nodes.Pairwise NodesApart ∧
    ∃ disk', r.fs.disk = some disk' ∧ ∀ n ∈ r.nodes, n.ReadsBack disk' := by
  have hrun : Executes CreateStep ⟨mountedBtrfs (diskOfSize 134225918), []⟩
      [emptyFile ['a'], emptyFile ['b']] _ := .cons rfl (.cons rfl (.nil _))
  have haccepted : ∀ call ∈ [emptyFile ['a'], emptyFile ['b']], call.Accepted := by
    intro call hcall
    simp only [List.mem_cons, List.not_mem_nil, or_false] at hcall
    rcases hcall with rfl | rfl <;> unfold CreateFile.Accepted <;> decide
  obtain ⟨hlength, hiff, hread⟩ :=
    btrfs_nodes_apart_iff rfl rfl rfl haccepted (by decide +kernel) hrun
  have hapart := hiff.mpr ⟨by decide +kernel, trivial⟩
  exact ⟨_, hrun, hlength, hapart, hread hapart⟩

/-- Two empty files share a block. -/
theorem btrfs_nodes_share : ¬ ∀ (fs : Btrfs) (disk : Disk) (calls : List CreateFile) (r : BtrfsRun),
    fs.rootOk = true → fs.disk = some disk → fs.nextFree = 0 →
    (∀ call ∈ calls, call.Accepted) → Executes CreateStep ⟨fs, []⟩ calls r →
    r.nodes.Pairwise NodesApart := by
  intro hall
  have hrun : Executes CreateStep ⟨mountedBtrfs (diskOfSize 0), []⟩
      [emptyFile ['a'], emptyFile ['b']] _ := .cons rfl (.cons rfl (.nil _))
  have haccepted : ∀ call ∈ [emptyFile ['a'], emptyFile ['b']], call.Accepted := by
    intro call hcall
    simp only [List.mem_cons, List.not_mem_nil, or_false] at hcall
    rcases hcall with rfl | rfl <;> unfold CreateFile.Accepted <;> decide
  have hpair := hall _ _ _ _ rfl rfl rfl haccepted hrun
  obtain ⟨nodes, -, hnodes, -, hadded, -, -⟩ :=
    creations_added rfl rfl haccepted (by decide +kernel) hrun
  rw [hnodes, List.nil_append] at hpair
  exact absurd (hadded.apart_iff.mp hpair).1 (by decide +kernel)

end BrightS
