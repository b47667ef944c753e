/-
Process slots and process lookup, over runs of creations and exits.

An entry that was filled stays filled: exit leaves a zombie behind.  So the filled
entries are always the first `n`, and the slots whose bit is set are the first `m`.
A kernel process is put into slot `m`, a user process or a fork into slot `n` without
setting a bit: as soon as one of these succeeds `m < n`, and the next kernel process
lands on a slot that is taken (`proc_slot_taken`).  The pid index has the same gap
(`proc_index_misses`).

`Aligned` is what holds while only kernel processes are created: then `m = n` and
every pid, slot and index entry is known exactly.
-/
import BrightS.Lib.Runs
import BrightS.Kernel.Proc

namespace BrightS

open Runs Words

/-! ### Calls -/

inductive ProcCall where
  | spawnKernel (name : Option CStr)
  | spawnUser (name : Option CStr) (entry stackTop cr3 kstackPage : Nat)
  | fork (cloneCr3 kstackPage : Nat)
  | exit (pid : Nat) (exitCode : Int) (kernelCr3 : Nat)
  | setCurrent (pid : Nat)

/-- One call; nothing when it is undefined. -/
def ProcTable.call (s : ProcTable) : ProcCall → Option Spawned
  | .spawnKernel name => procSpawnKernel s name
  | .spawnUser name entry stackTop cr3 kstackPage =>
      some (procSpawnUser s name entry stackTop cr3 kstackPage)
  | .fork cloneCr3 kstackPage => some (procFork s cloneCr3 kstackPage)
  | .exit pid exitCode kernelCr3 =>
      some { procs := (procExit s pid exitCode kernelCr3).1, slot := none }
  | .setCurrent pid => some { procs := procSetCurrent s pid, slot := none }

def ProcTable.step (s : ProcTable) (c : ProcCall) (s' : ProcTable) : Prop :=
  ∃ slot, s.call c = some { procs := s', slot := slot }

theorem ProcTable.step_get {s : ProcTable} {c : ProcCall} (h : (s.call c).isSome) :
    s.step c ((s.call c).get h).procs := ⟨((s.call c).get h).slot, (Option.some_get h).symm⟩

/-! ### What one call does -/

/-- `s'` is `s` with a new process in `slot`; the bitmap and the index are not described. -/
structure Created (s s' : ProcTable) (slot : Nat) : Prop where
  others : ∀ j, j ≠ slot → s'.table j = s.table j
  pid : (s'.table slot).pid = s.nextPid
  state : (s'.table slot).state = .runnable
  nextPid : s'.nextPid = (s.nextPid + 1) % 2 ^ 32

theorem inheritCwd_spec (s : ProcTable) (slot : Nat) :
    (∀ j, j ≠ slot → (inheritCwd s slot).table j = s.table j) ∧
      ((inheritCwd s slot).table slot).pid = (s.table slot).pid ∧
      ((inheritCwd s slot).table slot).state = (s.table slot).state ∧
      ((inheritCwd s slot).table slot).isUser = (s.table slot).isUser ∧
      (inheritCwd s slot).pidToIndex = s.pidToIndex ∧
      (inheritCwd s slot).freeSlotsBitmap = s.freeSlotsBitmap ∧
      (inheritCwd s slot).nextPid = s.nextPid := by
  unfold inheritCwd
  split <;> refine ⟨fun j hj => Function.update_of_ne hj _ _, ?_⟩ <;>
    simp [ProcTable.put]

/-- A kernel process takes the slot the bitmap offers, and both shadow structures follow. -/
theorem procSpawnKernel_spec {s : ProcTable} {slot : Nat} (name : Option CStr)
    (hslot : procFindFreeSlot s = some slot) (hpid : s.nextPid < pidIndexSize) :
    ∃ s', procSpawnKernel s name = some { procs := s', slot := some slot } ∧ Created s s' slot ∧
      (s'.table slot).isUser = false ∧
      s'.pidToIndex = Function.update s.pidToIndex s.nextPid slot ∧
      s'.freeSlotsBitmap = bitSet s.freeSlotsBitmap slot := by
  unfold procSpawnKernel
  rw [hslot]
  dsimp only
  rw [if_pos hpid]
  refine ⟨_, rfl, ⟨?_, ?_, ?_, ?_⟩, ?_, ?_, ?_⟩
  · intro j hj
    dsimp only
    rw [(inheritCwd_spec _ slot).1 j hj]
    exact Function.update_of_ne hj _ _
  · simp [(inheritCwd_spec _ slot), ProcTable.put]
  · simp [(inheritCwd_spec _ slot), ProcTable.put]
  · simp [(inheritCwd_spec _ slot), ProcTable.put]
  · simp [(inheritCwd_spec _ slot), ProcTable.put]
  · simp [(inheritCwd_spec _ slot), ProcTable.put]
  · simp [(inheritCwd_spec _ slot), ProcTable.put]

theorem procSpawnKernel_slot {s : ProcTable} {slot : Nat} {name : Option CStr} {r : Spawned}
    (hslot : procFindFreeSlot s = some slot) (hcall : procSpawnKernel s name = some r) :
    r.slot = some slot := by
  unfold procSpawnKernel at hcall
  rw [hslot] at hcall
  dsimp only at hcall
  split at hcall
  · rw [Option.some.injEq] at hcall
    rw [← hcall]
  · simp at hcall

/-- A user process takes the first unused entry and leaves both shadow structures alone. -/
theorem procSpawnUser_spec {s : ProcTable} {slot : Nat} (name : Option CStr)
    (entry stackTop cr3 kstackPage : Nat) (hslot : procFirstUnused s = some slot) :
    ∃ s', procSpawnUser s name entry stackTop cr3 kstackPage = { procs := s', slot := some slot } ∧
      Created s s' slot ∧ s'.pidToIndex = s.pidToIndex ∧
      s'.freeSlotsBitmap = s.freeSlotsBitmap := by
  unfold procSpawnUser
  rw [hslot]
  refine ⟨_, rfl, ⟨?_, ?_, ?_, ?_⟩, ?_, ?_⟩
  · intro j hj
    rw [ProcTable.put]
    dsimp only
    rw [Function.update_of_ne hj, (inheritCwd_spec _ slot).1 j hj]
    exact Function.update_of_ne hj _ _
  · simp [(inheritCwd_spec _ slot), ProcTable.put]
  · simp [(inheritCwd_spec _ slot), ProcTable.put]
  · simp [(inheritCwd_spec _ slot), ProcTable.put]
  · simp [(inheritCwd_spec _ slot), ProcTable.put]
  · simp [(inheritCwd_spec _ slot), ProcTable.put]

/-- The clone of the parent's address space is made and fails. -/
def CloneFails (s : ProcTable) (parentIdx cloneCr3 : Nat) : Prop :=
  (s.table parentIdx).isUser = true ∧ (s.table parentIdx).cr3 ≠ 0 ∧ cloneCr3 = 0

/-- A fork does as `procSpawnUser` does, when there is a parent and its clone succeeds. -/
theorem procFork_spec {s : ProcTable} {parentIdx slot : Nat} {cloneCr3 : Nat} (kstackPage : Nat)
    (hparent : procGetCurrent s = some parentIdx) (hslot : procFirstUnused s = some slot)
    (hclone : ¬ CloneFails s parentIdx cloneCr3) :
    ∃ s', procFork s cloneCr3 kstackPage = { procs := s', slot := some slot } ∧
      Created s s' slot ∧ s'.pidToIndex = s.pidToIndex ∧
      s'.freeSlotsBitmap = s.freeSlotsBitmap := by
  unfold procFork
  rw [hparent, hslot]
  dsimp only
  rw [CloneFails] at hclone
  rw [if_neg hclone]
  refine ⟨_, rfl, ⟨fun j hj => Function.update_of_ne hj _ _, ?_, ?_, rfl⟩, rfl, rfl⟩
  · simp [ProcTable.put]
  · simp [ProcTable.put]

theorem procFork_failed {s : ProcTable} {parentIdx slot : Nat} {cloneCr3 : Nat} (kstackPage : Nat)
    (hparent : procGetCurrent s = some parentIdx) (hslot : procFirstUnused s = some slot)
    (hclone : CloneFails s parentIdx cloneCr3) :
    ∃ s', procFork s cloneCr3 kstackPage = { procs := s', slot := none } ∧
      (∀ j, j ≠ slot → s'.table j = s.table j) ∧ (s'.table slot).state = .unused ∧
      s'.freeSlotsBitmap = s.freeSlotsBitmap ∧ s'.nextPid = (s.nextPid + 1) % 2 ^ 32 := by
  unfold procFork
  rw [hparent, hslot]
  dsimp only
  rw [CloneFails] at hclone
  rw [if_pos hclone]
  refine ⟨_, rfl, fun j hj => Function.update_of_ne hj _ _, ?_, rfl, rfl⟩
  simp [ProcTable.put]

/-! Each creation does nothing, or fills one entry. -/

theorem procSpawnKernel_cases {s : ProcTable} {name : Option CStr} {res : Spawned}
    (hcall : procSpawnKernel s name = some res) :
    res = { procs := s, slot := none } ∨
      ∃ s' slot, res = { procs := s', slot := some slot } ∧ Created s s' slot := by
  cases hslot : procFindFreeSlot s with
  | none =>
      unfold procSpawnKernel at hcall
      rw [hslot] at hcall
      exact .inl (Option.some.inj hcall).symm
  | some slot =>
      by_cases hpid : s.nextPid < pidIndexSize
      · obtain ⟨s', hs', hcreated, -⟩ := procSpawnKernel_spec name hslot hpid
        exact .inr ⟨s', slot, Option.some.inj (hcall.symm.trans hs'), hcreated⟩
      · unfold procSpawnKernel at hcall
        rw [hslot] at hcall
        dsimp only at hcall
        rw [if_neg hpid] at hcall
        exact absurd hcall (by simp)

theorem procFirstUnused_state {s : ProcTable} {slot : Nat} (hslot : procFirstUnused s = some slot) :
    (s.table slot).state = .unused := by simpa using List.find?_some hslot

theorem procSpawnUser_cases (s : ProcTable) (name : Option CStr)
    (entry stackTop cr3 kstackPage : Nat) :
    procSpawnUser s name entry stackTop cr3 kstackPage = { procs := s, slot := none } ∨
      ∃ s' slot, procSpawnUser s name entry stackTop cr3 kstackPage =
          { procs := s', slot := some slot } ∧
        (s.table slot).state = .unused ∧ Created s s' slot := by
  cases hslot : procFirstUnused s with
  | none =>
      unfold procSpawnUser
      rw [hslot]
      exact .inl rfl
  | some slot =>
      obtain ⟨s', hs', hcreated, -⟩ := procSpawnUser_spec name entry stackTop cr3 kstackPage hslot
      exact .inr ⟨s', slot, hs', procFirstUnused_state hslot, hcreated⟩

/-- A fork that fails late has still written an entry and used up a pid. -/
theorem procFork_cases (s : ProcTable) (cloneCr3 kstackPage : Nat) :
    procFork s cloneCr3 kstackPage = { procs := s, slot := none } ∨
      ∃ s' slot, (s.table slot).state = .unused ∧
        ((procFork s cloneCr3 kstackPage = { procs := s', slot := none } ∧
            (∀ j, j ≠ slot → s'.table j = s.table j) ∧ (s'.table slot).state = .unused ∧
            s'.nextPid = (s.nextPid + 1) % 2 ^ 32) ∨
          (procFork s cloneCr3 kstackPage = { procs := s', slot := some slot } ∧
            Created s s' slot)) := by
  cases hparent : procGetCurrent s with
  | none =>
      unfold procFork
      rw [hparent]
      exact .inl rfl
  | some parent =>
      cases hslot : procFirstUnused s with
      | none =>
          unfold procFork
          rw [hparent, hslot]
          exact .inl rfl
      | some slot =>
          by_cases hclone : CloneFails s parent cloneCr3
          · obtain ⟨s', hs', hothers, hunused, -, hnext⟩ :=
              procFork_failed kstackPage hparent hslot hclone
            exact .inr ⟨s', slot, procFirstUnused_state hslot, .inl ⟨hs', hothers, hunused, hnext⟩⟩
          · obtain ⟨s', hs', hcreated, -⟩ := procFork_spec kstackPage hparent hslot hclone
            exact .inr ⟨s', slot, procFirstUnused_state hslot, .inr ⟨hs', hcreated⟩⟩

/-- Exit keeps every pid and every slot, and no entry becomes unused. -/
theorem procExit_spec (s : ProcTable) (pid : Nat) (exitCode : Int) (kernelCr3 : Nat) :
    let s' := (procExit s pid exitCode kernelCr3).1
    (∀ i, (s'.table i).pid = (s.table i).pid ∧ (s'.table i).isUser = (s.table i).isUser ∧
        ((s'.table i).state = .unused ↔ (s.table i).state = .unused)) ∧
      s'.pidToIndex = s.pidToIndex ∧ s'.freeSlotsBitmap = s.freeSlotsBitmap ∧
      s'.nextPid = s.nextPid := by
  dsimp only
  unfold procExit
  by_cases hz : pid = 0
  · rw [if_pos hz]
    simp
  · rw [if_neg hz]
    cases hscan : procScan s pid with
    | none => simp
    | some k =>
        have hlive : (s.table k).state ≠ .unused := by
          have := List.find?_some hscan
          simp only [Bool.and_eq_true, bne_iff_ne] at this
          exact this.2
        refine ⟨fun i => ?_, rfl, rfl, rfl⟩
        dsimp only [ProcTable.put]
        by_cases hi : i = k
        · subst hi
          simp [hlive]
        · rw [Function.update_of_ne hi]
          simp

/-! ### Filled slots and marked slots -/

/-- The first `n` entries are filled, and the first `m` slots are marked. -/
structure SlotsOk (s : ProcTable) (m n : Nat) : Prop where
  le : m ≤ n
  inTable : n ≤ procMax
  filled : ∀ i, i < procMax → ((s.table i).state ≠ .unused ↔ i < n)
  marked : ∀ i, bitTest s.freeSlotsBitmap i = decide (i < m)

section Slots

variable {s s' : ProcTable} {m n : Nat}

theorem SlotsOk.firstUnused (h : SlotsOk s m n) :
    procFirstUnused s = if n < procMax then some n else none := by
  have hmax : procMax = 64 := rfl
  have hle := h.inTable
  unfold procFirstUnused
  by_cases hn : n < procMax
  · rw [if_pos hn, List.find?_range_eq_some]
    refine ⟨?_, List.mem_range.mpr hn, fun i hi => ?_⟩
    · have := (h.filled n hn).not
      simpa using this
    · have := (h.filled i (by omega)).mpr hi
      simpa using this
  · rw [if_neg hn, List.find?_eq_none]
    intro i hi
    have := (h.filled i (List.mem_range.mp hi)).mpr (by have := List.mem_range.mp hi; omega)
    simpa using this

theorem SlotsOk.findFreeSlot (h : SlotsOk s m n) :
    procFindFreeSlot s = if m < procMax then some m else none := by
  have hmax : procMax = 64 := rfl
  have hle := h.le
  have hin := h.inTable
  have hbit : ∀ i, i < 64 → bitTest (~~~s.freeSlotsBitmap) i = !decide (i < m) := by
    intro i hi
    rw [bitTest_not _ hi, h.marked]
  unfold procFindFreeSlot
  by_cases hm : m < procMax
  · have hne : ~~~s.freeSlotsBitmap ≠ 0#64 := by
      intro hz
      have := hbit m (by omega)
      rw [hz, bitTest_zero] at this
      simp at this
    rw [if_neg hne, if_pos hm]
    have hlt := lowestBit_lt hne
    have hset := bitTest_lowestBit hne
    rw [hbit _ hlt] at hset
    -- Every bit below the lowest one is clear, so the lowest one is not past `m`.
    have hnot : ¬ m < lowestBit (~~~s.freeSlotsBitmap) := by
      intro hgt
      have := bitTest_of_lt_lowestBit hgt
      rw [hbit m (by omega)] at this
      simp at this
    simp only [Bool.not_eq_true', decide_eq_false_iff_not] at hset
    congr 1
    omega
  · have hz : ~~~s.freeSlotsBitmap = 0#64 := by
      rw [eq_zero_iff]
      intro i
      by_cases hi : i < 64
      · rw [hbit i hi]
        simp only [Bool.not_eq_false', decide_eq_true_eq]
        omega
      · exact bitTest_of_ge _ (by omega)
    rw [if_pos hz, if_neg hm]

theorem slotsOk_init (s : ProcTable) : SlotsOk (procInit s) 0 0 :=
  ⟨le_refl _, Nat.zero_le _, fun i _ => by simp [procInit], fun i => by simp [procInit]⟩

/-- A creation that fills slot `n`, whatever it does to the bitmap. -/
theorem SlotsOk.filled_created (h : SlotsOk s m n) (hn : n < procMax) (hc : Created s s' n) :
    ∀ i, i < procMax → ((s'.table i).state ≠ .unused ↔ i < n + 1) := by
  intro i hi
  by_cases hin : i = n
  · subst hin
    simp [hc.state]
  · rw [hc.others i hin, h.filled i hi]
    omega

theorem SlotsOk.created_unmarked (h : SlotsOk s m n) (hn : n < procMax) (hc : Created s s' n)
    (hbits : s'.freeSlotsBitmap = s.freeSlotsBitmap) : SlotsOk s' m (n + 1) :=
  ⟨h.le.trans (Nat.le_succ n), hn, h.filled_created hn hc, fun i => by rw [hbits, h.marked]⟩

theorem SlotsOk.created_marked (h : SlotsOk s n n) (hn : n < procMax) (hc : Created s s' n)
    (hbits : s'.freeSlotsBitmap = bitSet s.freeSlotsBitmap n) : SlotsOk s' (n + 1) (n + 1) := by
  refine ⟨le_refl _, hn, h.filled_created hn hc, fun i => ?_⟩
  rw [hbits, bitTest_bitSet _ hn, h.marked, ← Bool.decide_or]
  congr 1
  apply propext
  omega

theorem SlotsOk.exit (h : SlotsOk s m n) (pid : Nat) (exitCode : Int) (kernelCr3 : Nat) :
    SlotsOk (procExit s pid exitCode kernelCr3).1 m n := by
  obtain ⟨hentries, -, hbits, -⟩ := procExit_spec s pid exitCode kernelCr3
  refine ⟨h.le, h.inTable, fun i hi => ?_, fun i => by rw [hbits, h.marked]⟩
  rw [← h.filled i hi, Ne, Ne, (hentries i).2.2]

end Slots

/-! ### Only kernel processes -/

/-- Only kernel processes were created: entry `i` holds pid `i + 1` and the index says so. -/
structure Aligned (s : ProcTable) (n : Nat) : Prop where
  slots : SlotsOk s n n
  pids : ∀ i, i < n → (s.table i).pid = i + 1
  kernel : ∀ i, i < n → (s.table i).isUser = false
  index : ∀ p, s.pidToIndex p = if 1 ≤ p ∧ p ≤ n then p - 1 else procMax
  nextPid : s.nextPid = n + 1

section Aligned

variable {s s' : ProcTable} {n : Nat}

theorem aligned_init (s : ProcTable) : Aligned (procInit s) 0 :=
  ⟨slotsOk_init s, fun i hi => by omega, fun i hi => by omega,
    fun p => by rw [if_neg (by omega)]; rfl, rfl⟩

theorem Aligned.nextPid_lt (h : Aligned s n) : s.nextPid < pidIndexSize := by
  have hle := h.slots.inTable
  rw [h.nextPid, show pidIndexSize = 256 from rfl]
  rw [show procMax = 64 from rfl] at hle
  omega

/-- Spawning a kernel process is always defined, and keeps everything aligned. -/
theorem Aligned.spawnKernel (h : Aligned s n) (name : Option CStr) :
    (procSpawnKernel s name = some { procs := s, slot := none }) ∨
      ∃ s', procSpawnKernel s name = some { procs := s', slot := some n } ∧ n < procMax ∧
        Created s s' n ∧ Aligned s' (n + 1) := by
  by_cases hn : n < procMax
  · have hslot : procFindFreeSlot s = some n := by rw [h.slots.findFreeSlot, if_pos hn]
    obtain ⟨s', hcall, hc, huser, hindex, hbits⟩ :=
      procSpawnKernel_spec name hslot h.nextPid_lt
    refine Or.inr ⟨s', hcall, hn, hc, h.slots.created_marked hn hc hbits, ?_, ?_, ?_, ?_⟩
    · intro i hi
      by_cases hin : i = n
      · rw [hin, hc.pid, h.nextPid]
      · rw [hc.others i hin, h.pids i (by omega)]
    · intro i hi
      by_cases hin : i = n
      · rw [hin, huser]
      · rw [hc.others i hin, h.kernel i (by omega)]
    · intro p
      rw [hindex, h.nextPid]
      by_cases hp : p = n + 1
      · rw [hp, Function.update_self, if_pos (by omega)]
        omega
      · rw [Function.update_of_ne hp, h.index]
        by_cases hin : 1 ≤ p ∧ p ≤ n
        · rw [if_pos hin, if_pos (by omega)]
        · rw [if_neg hin, if_neg (by omega)]
    · rw [hc.nextPid, h.nextPid]
      have hmax : procMax = 64 := rfl
      omega
  · left
    unfold procSpawnKernel
    rw [h.slots.findFreeSlot, if_neg hn]

theorem Aligned.exit (h : Aligned s n) (pid : Nat) (exitCode : Int) (kernelCr3 : Nat) :
    Aligned (procExit s pid exitCode kernelCr3).1 n := by
  obtain ⟨hentries, hindex, -, hnext⟩ := procExit_spec s pid exitCode kernelCr3
  refine ⟨h.slots.exit pid exitCode kernelCr3, fun i hi => ?_, fun i hi => ?_, fun p => ?_, ?_⟩
  · rw [(hentries i).1, h.pids i hi]
  · rw [(hentries i).2.1, h.kernel i hi]
  · rw [hindex, h.index]
  · rw [hnext, h.nextPid]

theorem Aligned.setCurrent (h : Aligned s n) (pid : Nat) : Aligned (procSetCurrent s pid) n :=
  ⟨⟨h.slots.le, h.slots.inTable, h.slots.filled, h.slots.marked⟩, h.pids, h.kernel, h.index,
    h.nextPid⟩

/-- The index and the scan find the same process. -/
def LookupAgrees (s : ProcTable) : Prop := ∀ pid, procGetByPid s pid = procScan s pid

theorem Aligned.scan (h : Aligned s n) (pid : Nat) :
    procScan s pid = if 1 ≤ pid ∧ pid ≤ n then some (pid - 1) else none := by
  have hle := h.slots.inTable
  unfold procScan
  by_cases hp : 1 ≤ pid ∧ pid ≤ n
  · rw [if_pos hp, List.find?_range_eq_some]
    refine ⟨?_, List.mem_range.mpr (by omega), fun i hi => ?_⟩
    · have hpid := h.pids (pid - 1) (by omega)
      have hstate := (h.slots.filled (pid - 1) (by omega)).mpr (by omega)
      simp only [hpid, Bool.and_eq_true, beq_iff_eq, bne_iff_ne]
      exact ⟨by omega, hstate⟩
    · have hpid := h.pids i (by omega)
      simp only [hpid, Bool.not_eq_true', Bool.and_eq_false_iff, beq_eq_false_iff_ne]
      exact Or.inl (by omega)
  · rw [if_neg hp, List.find?_eq_none]
    intro i hi hfound
    simp only [Bool.and_eq_true, beq_iff_eq, bne_iff_ne] at hfound
    have hin := (h.slots.filled i (List.mem_range.mp hi)).mp hfound.2
    have hpid := h.pids i hin
    omega

theorem Aligned.getByPid (h : Aligned s n) (pid : Nat) :
    procGetByPid s pid = if 1 ≤ pid ∧ pid ≤ n then some (pid - 1) else none := by
  have hle := h.slots.inTable
  have hmax : procMax = 64 := rfl
  have hsize : pidIndexSize = 256 := rfl
  unfold procGetByPid
  by_cases hp : 1 ≤ pid ∧ pid ≤ n
  · have hpid := h.pids (pid - 1) (by omega)
    have hstate := (h.slots.filled (pid - 1) (by omega)).mpr (by omega)
    have hidx : s.pidToIndex pid = pid - 1 := by rw [h.index, if_pos hp]
    rw [if_pos hp, if_neg (by omega)]
    dsimp only
    rw [hidx, if_neg (by omega), if_neg]
    rintro (hne | hunused)
    · omega
    · exact hstate hunused
  · have hidx : s.pidToIndex pid = procMax := by rw [h.index, if_neg hp]
    rw [if_neg hp]
    dsimp only
    rw [hidx, if_pos (le_refl _)]
    exact ite_self none

theorem Aligned.lookupAgrees (h : Aligned s n) : LookupAgrees s := fun pid => by
  rw [h.getByPid, h.scan]

/-- A creation that forgets the index hides the new process from the indexed lookup. -/
theorem Aligned.lookup_missed (h : Aligned s n) (hn : n < procMax) (hc : Created s s' n)
    (hindex : s'.pidToIndex = s.pidToIndex) : ¬ LookupAgrees s' := by
  intro hagree
  have hmissing : procGetByPid s' (n + 1) = none := by
    unfold procGetByPid
    dsimp only
    rw [hindex, h.index, if_neg (by omega : ¬ (1 ≤ n + 1 ∧ n + 1 ≤ n)), if_pos (le_refl procMax)]
    exact ite_self none
  have hfound : (procScan s' (n + 1)).isSome := by
    unfold procScan
    rw [List.find?_isSome]
    refine ⟨n, List.mem_range.mpr hn, ?_⟩
    simp [hc.pid, hc.state, h.nextPid]
  rw [← hagree, hmissing] at hfound
  simp at hfound

end Aligned

/-! ### Slot ownership over runs -/

/-- The call is defined; the slot it fills, if any, was unused, and the record of every other
process stays as it was. -/
def SlotOwned (s : ProcTable) (c : ProcCall) : Prop :=
  ∃ r, s.call c = some r ∧ ∀ slot, r.slot = some slot →
    (s.table slot).state = .unused ∧
      ∀ j, j < procMax → j ≠ slot → (s.table j).state ≠ .unused → r.procs.table j = s.table j

/-- A kernel process is only spawned while the bitmap knows of every filled slot. -/
def SlotsMarked (s : ProcTable) : ProcCall → Prop
  | .spawnKernel _ =>
      ∀ i, i < procMax → (s.table i).state ≠ .unused → bitTest s.freeSlotsBitmap i = true
  | _ => True

/-- The filled and the marked slots; as long as they are the same, everything is aligned. -/
def SlotsInv (s : ProcTable) : Prop := ∃ m n, SlotsOk s m n ∧ (m = n → Aligned s n)

section Ownership

variable {s : ProcTable} {m n : Nat}

theorem SlotsOk.marked_iff (h : SlotsOk s m n) (name : Option CStr) :
    SlotsMarked s (.spawnKernel name) ↔ m = n := by
  have hle := h.le
  have hin := h.inTable
  constructor
  · intro hmarked
    by_contra hne
    have hbit := hmarked m (by omega) ((h.filled m (by omega)).mpr (by omega))
    rw [h.marked] at hbit
    simp at hbit
  · rintro rfl i hi hstate
    rw [h.marked, decide_eq_true ((h.filled i hi).mp hstate)]

/-- The parent a call finds is a filled entry. -/
theorem procGetCurrent_filled {parent : Nat} (hparent : procGetCurrent s = some parent) :
    parent < procMax ∧ (s.table parent).state ≠ .unused := by
  unfold procGetCurrent procGetByPid at hparent
  dsimp only at hparent
  split at hparent
  · simp at hparent
  · split at hparent
    · simp at hparent
    · rename_i hlt
      split at hparent
      · simp at hparent
      · rename_i hfound
        rw [Option.some.injEq] at hparent
        subst hparent
        exact ⟨by omega, fun hu => hfound (Or.inr hu)⟩

theorem Aligned.clone_succeeds (h : Aligned s n) {parent cloneCr3 : Nat}
    (hparent : procGetCurrent s = some parent) : ¬ CloneFails s parent cloneCr3 := by
  obtain ⟨hlt, hstate⟩ := procGetCurrent_filled hparent
  have huser := h.kernel parent ((h.slots.filled parent hlt).mp hstate)
  rintro ⟨htrue, -⟩
  rw [huser] at htrue
  exact Bool.noConfusion htrue

/-- The call succeeds in creating a process by one of the two paths that scan the table. -/
def UserCreated (s : ProcTable) : ProcCall → Prop
  | .spawnUser .. => procFirstUnused s ≠ none
  | .fork cloneCr3 _ => procFirstUnused s ≠ none ∧
      ∃ parent, procGetCurrent s = some parent ∧ ¬ CloneFails s parent cloneCr3
  | _ => False

/-- What a call other than `spawnKernel` can come to: nothing that matters here, or a process in
slot `n` that neither the bitmap nor the index knows of. -/
def CallResult (s : ProcTable) (m n : Nat) (c : ProcCall) (r : Spawned) : Prop :=
  (¬ UserCreated s c ∧ r.slot = none ∧ SlotsOk r.procs m n ∧ (Aligned s n → Aligned r.procs n)) ∨
  (UserCreated s c ∧ r.slot = some n ∧ n < procMax ∧ Created s r.procs n ∧
    r.procs.pidToIndex = s.pidToIndex ∧ r.procs.freeSlotsBitmap = s.freeSlotsBitmap)

theorem SlotsOk.spawnUser_result (h : SlotsOk s m n) (name : Option CStr)
    (entry stackTop cr3 kstackPage : Nat) :
    CallResult s m n (.spawnUser name entry stackTop cr3 kstackPage)
      (procSpawnUser s name entry stackTop cr3 kstackPage) := by
  have hfirst := h.firstUnused
  by_cases hn : n < procMax
  · rw [if_pos hn] at hfirst
    obtain ⟨s', hcall, hc, hindex, hbits⟩ :=
      procSpawnUser_spec name entry stackTop cr3 kstackPage hfirst
    rw [hcall]
    exact Or.inr ⟨by rw [UserCreated, hfirst]; simp, rfl, hn, hc, hindex, hbits⟩
  · rw [if_neg hn] at hfirst
    have hcall : procSpawnUser s name entry stackTop cr3 kstackPage =
        { procs := s, slot := none } := by
      unfold procSpawnUser
      rw [hfirst]
    rw [hcall]
    exact Or.inl ⟨by rw [UserCreated, hfirst]; simp, rfl, h, id⟩

theorem SlotsOk.fork_result (h : SlotsOk s m n) (cloneCr3 kstackPage : Nat) :
    CallResult s m n (.fork cloneCr3 kstackPage) (procFork s cloneCr3 kstackPage) := by
  have hfirst := h.firstUnused
  cases hparent : procGetCurrent s with
  | none =>
      have hcall : procFork s cloneCr3 kstackPage = { procs := s, slot := none } := by
        unfold procFork
        rw [hparent]
      rw [hcall]
      exact Or.inl ⟨by simp [UserCreated, hparent], rfl, h, id⟩
  | some parent =>
      by_cases hn : n < procMax
      · rw [if_pos hn] at hfirst
        by_cases hclone : CloneFails s parent cloneCr3
        · obtain ⟨s', hcall, hothers, hunused, hbits, -⟩ :=
            procFork_failed kstackPage hparent hfirst hclone
          rw [hcall]
          refine Or.inl ⟨by simp [UserCreated, hparent, hclone], rfl, ?_, fun ha => ?_⟩
          · refine ⟨h.le, h.inTable, fun i hi => ?_, fun i => by rw [hbits, h.marked]⟩
            by_cases hin : i = n
            · rw [hin, hunused]
              simp
            · rw [hothers i hin, h.filled i hi]
          · exact absurd hclone (ha.clone_succeeds hparent)
        · obtain ⟨s', hcall, hc, hindex, hbits⟩ := procFork_spec kstackPage hparent hfirst hclone
          rw [hcall]
          exact Or.inr ⟨by simp [UserCreated, hparent, hfirst, hclone], rfl, hn, hc, hindex, hbits⟩
      · rw [if_neg hn] at hfirst
        have hcall : procFork s cloneCr3 kstackPage = { procs := s, slot := none } := by
          unfold procFork
          rw [hparent, hfirst]
        rw [hcall]
        exact Or.inl ⟨by simp [UserCreated, hfirst], rfl, h, id⟩

theorem SlotsOk.call_result (h : SlotsOk s m n) {c : ProcCall}
    (hc : ∀ name, c ≠ .spawnKernel name) : ∃ r, s.call c = some r ∧ CallResult s m n c r := by
  cases c with
  | spawnKernel name => exact absurd rfl (hc name)
  | spawnUser name entry stackTop cr3 kstackPage =>
      exact ⟨_, rfl, h.spawnUser_result name entry stackTop cr3 kstackPage⟩
  | fork cloneCr3 kstackPage => exact ⟨_, rfl, h.fork_result cloneCr3 kstackPage⟩
  | exit pid exitCode kernelCr3 =>
      exact ⟨_, rfl, Or.inl ⟨id, rfl, h.exit pid exitCode kernelCr3,
        fun ha => ha.exit pid exitCode kernelCr3⟩⟩
  | setCurrent pid =>
      exact ⟨_, rfl, Or.inl ⟨id, rfl, ⟨h.le, h.inTable, h.filled, h.marked⟩,
        fun ha => ha.setCurrent pid⟩⟩

theorem SlotsOk.owned_of_scan (h : SlotsOk s m n) {c : ProcCall}
    (hc : ∀ name, c ≠ .spawnKernel name) : SlotOwned s c := by
  obtain ⟨r, hcall, hres⟩ := h.call_result hc
  refine ⟨r, hcall, fun slot hslot => ?_⟩
  rcases hres with ⟨-, hnone, -⟩ | ⟨-, hsome, hn, hcreated, -⟩
  · rw [hnone] at hslot
    simp at hslot
  · rw [hsome, Option.some.injEq] at hslot
    subst hslot
    refine ⟨?_, fun j _ hj _ => hcreated.others j hj⟩
    by_contra hne
    exact absurd ((h.filled n hn).mp hne) (lt_irrefl n)

/-- A kernel process is put where no process is exactly when the bitmap is complete. -/
theorem SlotsOk.owned_spawnKernel (h : SlotsOk s m n) (ha : m = n → Aligned s n)
    (name : Option CStr) : SlotOwned s (.spawnKernel name) ↔ m = n := by
  have hle := h.le
  have hin := h.inTable
  constructor
  · rintro ⟨r, hcall, howned⟩
    by_contra hne
    have hslot : procFindFreeSlot s = some m := by rw [h.findFreeSlot, if_pos (by omega)]
    exact (h.filled m (by omega)).mpr (by omega)
      (howned m (procSpawnKernel_slot hslot hcall)).1
  · intro hmn
    rcases (ha hmn).spawnKernel name with hcall | ⟨s', hcall, hn, hc, -⟩
    · exact ⟨_, hcall, fun slot hslot => by simp at hslot⟩
    · refine ⟨_, hcall, fun slot hslot => ?_⟩
      rw [Option.some.injEq] at hslot
      subst hslot
      refine ⟨?_, fun j _ hj _ => hc.others j hj⟩
      by_contra hne
      exact absurd ((h.filled n hn).mp hne) (lt_irrefl n)

theorem slotsInv_step (s : ProcTable) (c : ProcCall) (s' : ProcTable) (hinv : SlotsInv s)
    (hstep : Guarded SlotsMarked ProcTable.step s c s') : SlotsInv s' := by
  obtain ⟨m, n, h, ha⟩ := hinv
  obtain ⟨hguard, slot, hcall⟩ := hstep
  by_cases hc : ∃ name, c = .spawnKernel name
  · obtain ⟨name, rfl⟩ := hc
    have hmn := (h.marked_iff name).mp hguard
    replace hcall : procSpawnKernel s name = some { procs := s', slot := slot } := hcall
    rcases (ha hmn).spawnKernel name with hnone | ⟨s₁, hsome, -, -, halign⟩
    · obtain ⟨rfl, -⟩ := Spawned.mk.inj (Option.some.inj (hnone.symm.trans hcall))
      exact ⟨m, n, h, ha⟩
    · obtain ⟨rfl, -⟩ := Spawned.mk.inj (Option.some.inj (hsome.symm.trans hcall))
      exact ⟨n + 1, n + 1, halign.slots, fun _ => halign⟩
  · obtain ⟨r, hcall', hres⟩ := h.call_result fun name hname => hc ⟨name, hname⟩
    obtain rfl := Option.some.inj (hcall'.symm.trans hcall)
    rcases hres with ⟨-, -, hslots, halign⟩ | ⟨-, -, hn, hcreated, -, hbits⟩
    · exact ⟨m, n, hslots, fun hmn => halign (ha hmn)⟩
    · refine ⟨m, n + 1, h.created_unmarked hn hcreated hbits, fun hmn => ?_⟩
      have := h.le
      omega

end Ownership

/--
**Slots are taken only when free, as long as the bitmap is complete.**  In every state a run
reaches whose kernel processes were spawned with a complete bitmap, a call takes an unused slot
and leaves the other processes alone exactly when the same can be said of that call.
-/
theorem proc_slot_owned_iff_marked (s₀ : ProcTable) {calls : List ProcCall} {s : ProcTable}
    (hrun : Executes (Guarded SlotsMarked ProcTable.step) (procInit s₀) calls s)
    (c : ProcCall) : SlotOwned s c ↔ SlotsMarked s c := by
  have hinit : SlotsInv (procInit s₀) := ⟨0, 0, slotsOk_init s₀, fun _ => aligned_init s₀⟩
  obtain ⟨m, n, h, ha⟩ := hrun.invariant slotsInv_step hinit
  by_cases hc : ∃ name, c = .spawnKernel name
  · obtain ⟨name, rfl⟩ := hc
    rw [h.owned_spawnKernel ha, h.marked_iff]
  · have hname : ∀ name, c ≠ .spawnKernel name := fun name heq => hc ⟨name, heq⟩
    have hguard : SlotsMarked s c := by
      cases c with
      | spawnKernel name => exact absurd rfl (hname name)
      | _ => trivial
    exact iff_of_true (h.owned_of_scan hname) hguard

/-- Memory that was never written. -/
def blankProcs : ProcTable where
  table _ :=
    { pid := 0, ppid := 0, state := .unused, name := [], exitCode := 0, fdTable := fun _ => 0,
      cwd := [], isUser := false, cr3 := 0, userEntry := 0, userStackTop := 0, brk := 0,
      brkStart := 0, kernelStack := 0, ctx := userCtx 0 0 }
  pidToIndex _ := 0
  freeSlotsBitmap := 0
  nextPid := 0
  currentPid := 0

instance (s : ProcTable) (c : ProcCall) : Decidable (SlotsMarked s c) :=
  match c with
  | .spawnKernel _ => inferInstanceAs (Decidable (∀ i, i < procMax → _ → _))
  | .spawnUser _ _ _ _ _ => .isTrue trivial
  | .fork _ _ => .isTrue trivial
  | .exit _ _ _ => .isTrue trivial
  | .setCurrent _ => .isTrue trivial

/-- After an exit the bitmap still knows of both kernel processes, so the next one gets a free
slot. -/
theorem proc_slot_owned_after_exit :
    ∃ s, Executes (Guarded SlotsMarked ProcTable.step) (procInit blankProcs)
        [.spawnKernel none, .spawnKernel none, .exit 1 0 0] s ∧
      (s.table 0).state = .zombie ∧ (s.table 1).state = .runnable ∧
      SlotOwned s (.spawnKernel none) := by
  have hends : (runAll (testedNext (fun s c => decide (SlotsMarked s c)) fun s c =>
      (s.call c).map Spawned.procs) (procInit blankProcs)
      [.spawnKernel none, .spawnKernel none, .exit 1 0 0]).map
        (fun s => ((s.table 0).state, (s.table 1).state, decide (SlotsMarked s (.spawnKernel none))))
        = some (.zombie, .runnable, true) := by decide +kernel
  obtain ⟨s, hs, hfacts⟩ := Option.map_eq_some_iff.mp hends
  obtain ⟨hfirst, hfacts⟩ := Prod.mk.inj hfacts
  obtain ⟨hsecond, hmarked⟩ := Prod.mk.inj hfacts
  have hrun : Executes (Guarded SlotsMarked ProcTable.step) (procInit blankProcs)
      [.spawnKernel none, .spawnKernel none, .exit 1 0 0] s := by
    refine executes_tested (fun _ _ => of_decide_eq_true) (fun s c s' hnext => ?_) hs
    obtain ⟨r, hr, rfl⟩ := Option.map_eq_some_iff.mp hnext
    exact ⟨r.slot, hr⟩
  exact ⟨s, hrun, hfirst, hsecond,
    (proc_slot_owned_iff_marked blankProcs hrun _).mpr (of_decide_eq_true hmarked)⟩

/-- The user process alone, right after boot. -/
def oneUserProcess : ProcTable :=
  (procSpawnUser (procInit blankProcs) none 0x400000 0x7ff000 0x200000 0x300000).procs

theorem oneUserProcess_run : Executes ProcTable.step (procInit blankProcs)
    [.spawnUser none 0x400000 0x7ff000 0x200000 0x300000] oneUserProcess :=
  .cons ⟨_, rfl⟩ (.nil _)

/-- The first user process gets slot 0, and so does the kernel process after it. -/
theorem proc_slot_taken :
    ∃ s, Executes ProcTable.step (procInit blankProcs)
        [.spawnUser none 0x400000 0x7ff000 0x200000 0x300000] s ∧
      ¬ SlotOwned s (.spawnKernel none) := by
  refine ⟨oneUserProcess, oneUserProcess_run, ?_⟩
  rintro ⟨r, hcall, howned⟩
  have hfree : procFindFreeSlot oneUserProcess = some 0 := by decide +kernel
  have hstate : (oneUserProcess.table 0).state = .runnable := by decide +kernel
  have hunused := (howned 0 (procSpawnKernel_slot hfree hcall)).1
  rw [hstate] at hunused
  exact ProcState.noConfusion hunused

/-! ### Lookup over runs -/

theorem alignedInv_step (s : ProcTable) (c : ProcCall) (s' : ProcTable)
    (hinv : ∃ n, Aligned s n)
    (hstep : Guarded (fun s c => ¬ UserCreated s c) ProcTable.step s c s') :
    ∃ n, Aligned s' n := by
  obtain ⟨n, ha⟩ := hinv
  obtain ⟨hguard, slot, hcall⟩ := hstep
  by_cases hc : ∃ name, c = .spawnKernel name
  · obtain ⟨name, rfl⟩ := hc
    rcases ha.spawnKernel name with hnone | ⟨s₁, hsome, -, -, halign⟩
    · obtain ⟨rfl, -⟩ := Spawned.mk.inj (Option.some.inj (hnone.symm.trans hcall))
      exact ⟨n, ha⟩
    · obtain ⟨rfl, -⟩ := Spawned.mk.inj (Option.some.inj (hsome.symm.trans hcall))
      exact ⟨n + 1, halign⟩
  · obtain ⟨r, hcall', hres⟩ := ha.slots.call_result fun name hname => hc ⟨name, hname⟩
    obtain rfl := Option.some.inj (hcall'.symm.trans hcall)
    rcases hres with ⟨-, -, -, halign⟩ | ⟨hcreated, -⟩
    · exact ⟨n, halign ha⟩
    · exact absurd hcreated hguard

/--
**The index and the scan agree until a user process is created.**  In every state a run without
a successful `spawnUser` or `fork` reaches, both lookups give the same answer for every pid; the
next call is defined, and they still agree after it exactly when it creates no process by one of
these two paths.
-/
theorem proc_lookup_agrees_iff (s₀ : ProcTable) {calls : List ProcCall} {s : ProcTable}
    (hrun : Executes (Guarded (fun s c => ¬ UserCreated s c) ProcTable.step)
      (procInit s₀) calls s) :
    LookupAgrees s ∧
      ∀ c, ∃ r, s.call c = some r ∧ (LookupAgrees r.procs ↔ ¬ UserCreated s c) := by
  obtain ⟨n, ha⟩ := hrun.invariant alignedInv_step ⟨0, aligned_init s₀⟩
  refine ⟨ha.lookupAgrees, fun c => ?_⟩
  by_cases hc : ∃ name, c = .spawnKernel name
  · obtain ⟨name, rfl⟩ := hc
    have hguard : ¬ UserCreated s (.spawnKernel name) := id
    rcases ha.spawnKernel name with hnone | ⟨s₁, hsome, -, -, halign⟩
    · exact ⟨_, hnone, iff_of_true ha.lookupAgrees hguard⟩
    · exact ⟨_, hsome, iff_of_true halign.lookupAgrees hguard⟩
  · obtain ⟨r, hcall, hres⟩ := ha.slots.call_result fun name hname => hc ⟨name, hname⟩
    refine ⟨r, hcall, ?_⟩
    rcases hres with ⟨hguard, -, -, halign⟩ | ⟨hcreated, -, hn, hnew, hindex, -⟩
    · exact iff_of_true (halign ha).lookupAgrees hguard
    · exact iff_of_false (ha.lookup_missed hn hnew hindex) (fun h => h hcreated)

/-- Two kernel processes, the second one ended. -/
theorem proc_lookup_agrees_two_kernel :
    ∃ s, Executes (Guarded (fun s c => ¬ UserCreated s c) ProcTable.step) (procInit blankProcs)
        [.spawnKernel none, .spawnKernel none, .exit 2 1 0] s ∧ LookupAgrees s := by
  have hrun : Executes (Guarded (fun s c => ¬ UserCreated s c) ProcTable.step)
      (procInit blankProcs) [.spawnKernel none, .spawnKernel none, .exit 2 1 0] _ :=
    .cons ⟨id, ProcTable.step_get (by decide +kernel)⟩
      (.cons ⟨id, ProcTable.step_get (by decide +kernel)⟩
        (.cons ⟨id, ProcTable.step_get (by rfl)⟩ (.nil _)))
  exact ⟨_, hrun, (proc_lookup_agrees_iff blankProcs hrun).1⟩

/-- The scan finds the first user process and the index does not. -/
theorem proc_index_misses :
    ∃ s, Executes ProcTable.step (procInit blankProcs)
        [.spawnUser none 0x400000 0x7ff000 0x200000 0x300000] s ∧
      procScan s 1 = some 0 ∧ procGetByPid s 1 = none ∧ ¬ LookupAgrees s := by
  have hscan : procScan oneUserProcess 1 = some 0 := by decide +kernel
  have hindex : procGetByPid oneUserProcess 1 = none := by decide +kernel
  refine ⟨oneUserProcess, oneUserProcess_run, hscan, hindex, fun hagree => ?_⟩
  have := hagree 1
  rw [hscan, hindex] at this
  simp at this

end BrightS
