/-
What a program holds of the user heap.

Each pointer is behind the header of a block in use, which is its own, and the bytes that the
program has written there stay until it gives the pointer back or writes again.
-/
import BrightS.Lib.Runs
import BrightS.Proofs.UserHeap

namespace BrightS

open Bytes Runs Tilings Words

/-- The pointer is that of a block in use, which is large enough and holds the data. -/
structure HeapHeld (m : Mem) (l : List Block) (e : LiveBlock) : Prop where
  block : ∃ b ∈ usedBlocks l, e.ptr = b.addr + mallocHeaderSize ∧
    e.size ≤ b.size - mallocHeaderSize
  data : ∀ i, i < e.size → m (e.ptr + i) = e.data i

structure ProgramOk (p : UserProgram) (l : List Block) : Prop where
  heap : HeapOk p.heap l
  held : ∀ e ∈ p.live, HeapHeld p.heap.mem l e
  distinct : (p.live.map (·.ptr)).Nodup

section

variable {brk : SystemBreak} {p : UserProgram} {h : UserHeap} {l l' : List Block} {b c : Block}
  {m m' : Mem} {e : LiveBlock}

theorem HeapOk.le_size (hok : HeapOk h l) (hb : b ∈ usedBlocks l) : mallocHeaderSize ≤ b.size :=
  (hok.rep.headers b (mem_usedBlocks.mp hb).1).le

/-- The block stays in use, and nothing is written to it. -/
theorem HeapHeld.kept (he : HeapHeld m l e) (hle : ∀ b ∈ usedBlocks l, mallocHeaderSize ≤ b.size)
    (hkept : Kept l m m')
    (hstays : ∀ b ∈ usedBlocks l, e.ptr = b.addr + mallocHeaderSize → b ∈ usedBlocks l') :
    HeapHeld m' l' e := by
  obtain ⟨b, hb, hptr, hsize⟩ := he.block
  refine ⟨⟨b, hstays b hb hptr, hptr, hsize⟩, fun i hi => ?_⟩
  have hroom := hle b hb
  rw [← he.data i hi]
  exact hkept b hb (e.ptr + i) (by omega) (by omega)

/-- Whatever is written behind the header of a block in use. -/
theorem HeapOk.writes (hok : HeapOk h l) (hb : b ∈ usedBlocks l)
    (hsame : ∀ i, i < b.addr + mallocHeaderSize ∨ b.addr + b.size ≤ i → m' i = h.mem i) :
    HeapOk { h with mem := m' } l := by
  obtain ⟨hmem, -⟩ := mem_usedBlocks.mp hb
  refine ⟨⟨hok.rep.tiles, hok.rep.hi_lt, fun c hc => ?_⟩, hok.coalesced, hok.unused, hok.brk_le,
    hok.brk_pos, hok.brk_lt⟩
  refine (hok.rep.headers c hc).congr fun i hlo hhi => (hsame i ?_).symm
  have hle := (hok.rep.headers c hc).le
  by_cases hne : b = c
  · exact .inl (hne ▸ hhi)
  · rcases Tiles.apart hok.rep.tiles hmem hc hne with happart | happart <;> omega

/-- The bytes of another block are not among them. -/
theorem HeapOk.writes_other (hok : HeapOk h l) (hb : b ∈ usedBlocks l) (hc : c ∈ usedBlocks l)
    (hne : b ≠ c)
    (hsame : ∀ i, i < b.addr + mallocHeaderSize ∨ b.addr + b.size ≤ i → m' i = h.mem i) :
    ∀ i, c.addr + mallocHeaderSize ≤ i → i < c.addr + c.size → m' i = h.mem i := by
  intro i hlo hhi
  refine hsame i ?_
  rcases Tiles.apart hok.rep.tiles (mem_usedBlocks.mp hb).1 (mem_usedBlocks.mp hc).1 hne with
    happart | happart <;> omega

theorem ProgramOk.find (hok : ProgramOk p l) (he : e ∈ p.live) :
    p.live.find? (fun e' => e'.ptr = e.ptr) = some e := by
  cases hfind : p.live.find? fun e' => e'.ptr = e.ptr with
  | none => exact absurd (List.find?_eq_none.mp hfind e he) (by simp)
  | some e' =>
      have hptr : e'.ptr = e.ptr := by simpa using List.find?_some hfind
      rw [List.inj_on_of_nodup_map hok.distinct (List.mem_of_find?_eq_some hfind) he hptr]

theorem mem_drop {live : List LiveBlock} {ptr : Nat} :
    e ∈ UserProgram.drop live ptr ↔ e ∈ live ∧ e.ptr ≠ ptr := by
  unfold UserProgram.drop
  rw [List.mem_filter, decide_eq_true_iff]

theorem drop_distinct {live : List LiveBlock} (hdistinct : (live.map (·.ptr)).Nodup) (ptr : Nat) :
    ((UserProgram.drop live ptr).map (·.ptr)).Nodup :=
  ((List.filter_sublist).map _).nodup hdistinct

/-- One pointer more, which no other entry has. -/
theorem distinct_snoc {live : List LiveBlock} (hdistinct : (live.map (·.ptr)).Nodup)
    (hnew : ∀ e' ∈ live, e'.ptr ≠ e.ptr) : ((live ++ [e]).map (·.ptr)).Nodup := by
  rw [List.map_append, List.nodup_append]
  refine ⟨hdistinct, List.nodup_singleton _, ?_⟩
  intro x hx y hy hxy
  obtain ⟨e', he', rfl⟩ := List.mem_map.mp hx
  exact hnew e' he' (hxy.trans (List.mem_singleton.mp hy))

/-! ### `malloc` and `free` -/

/-- The block that was granted belongs to nobody. -/
theorem Granted.fresh {ptr size : Nat} (hgranted : Granted l l' ptr size) (hok : HeapOk h l') :
    ∃ nb ∈ usedBlocks l', ptr = nb.addr + mallocHeaderSize ∧ size ≤ nb.size - mallocHeaderSize ∧
      ∀ b ∈ usedBlocks l, b ∈ usedBlocks l' ∧ b.addr ≠ nb.addr := by
  obtain ⟨u₁, nb, u₂, hbefore, hafter, hptr, hroom⟩ := hgranted.used
  refine ⟨nb, by rw [hafter]; simp, hptr, hroom, fun b hb => ?_⟩
  rw [hbefore, List.mem_append] at hb
  have hnodup : ((usedBlocks l').map (·.addr)).Nodup :=
    ((List.filter_sublist).map _).nodup hok.rep.tiles.addr_nodup
  rw [hafter, List.map_append, List.map_cons] at hnodup
  have hnot := (List.nodup_middle.mp hnodup)
  rw [List.nodup_cons, List.mem_append] at hnot
  refine ⟨?_, fun haddr => hnot.1 ?_⟩
  · rw [hafter, List.mem_append, List.mem_cons]
    exact hb.imp id .inr
  · rw [← haddr]
    exact hb.imp (fun hb => List.mem_map_of_mem hb) fun hb => List.mem_map_of_mem hb

/-- What the entries say after a call of `malloc`, whatever it has returned. -/
theorem ProgramOk.after_malloc (hok : ProgramOk p l) {size : Nat} {r : UserHeap × Nat}
    (hmalloc : MallocOk p.heap l size r l') : ∀ e ∈ p.live, HeapHeld r.1.mem l' e := by
  intro e he
  refine (hok.held e he).kept (fun b hb => hok.heap.le_size hb) hmalloc.kept fun b hb _ => ?_
  rcases hmalloc.result with ⟨-, rfl⟩ | hgranted
  · exact hb
  · obtain ⟨nb, -, -, -, hothers⟩ := hgranted.fresh hmalloc.ok
    exact (hothers b hb).1

theorem ProgramOk.gain (hok : ProgramOk p l) {size : Nat} {r : UserHeap × Nat}
    (hmalloc : MallocOk p.heap l size r l') : ProgramOk (UserProgram.gain p.live r size) l' := by
  have hheld := hok.after_malloc hmalloc
  unfold UserProgram.gain
  rcases hmalloc.result with ⟨hnull, -⟩ | hgranted
  · rw [if_pos hnull]
    exact ⟨hmalloc.ok, hheld, hok.distinct⟩
  · obtain ⟨nb, hnb, hptr, hroom, hothers⟩ := hgranted.fresh hmalloc.ok
    have hne : r.2 ≠ 0 := by
      rw [hptr]
      exact Nat.succ_ne_zero _
    rw [if_neg hne]
    refine ⟨hmalloc.ok, fun e he => ?_, distinct_snoc hok.distinct fun e he hsame => ?_⟩
    · rcases List.mem_append.mp he with he | he
      · exact hheld e he
      · rw [List.mem_singleton.mp he]
        exact ⟨⟨nb, hnb, hptr, hroom⟩, fun _ _ => rfl⟩
    · obtain ⟨b, hb, hbptr, -⟩ := (hok.held e he).block
      refine (hothers b hb).2 (Nat.add_right_cancel (m := mallocHeaderSize) ?_)
      exact hbptr.symm.trans (hsame.trans hptr)

/-- A pointer is given back. -/
theorem ProgramOk.free (hok : ProgramOk p l) (he : e ∈ p.live) :
    ∃ h' l', userFree p.heap e.ptr = some h' ∧
      ProgramOk { heap := h', live := UserProgram.drop p.live e.ptr } l' := by
  obtain ⟨b, hb, hptr, -⟩ := (hok.held e he).block
  obtain ⟨h', l', hfree, hok', hkept, u₁, u₂, hbefore, hafter⟩ := userFree_ok hok.heap hb
  refine ⟨h', l', hptr ▸ hfree, hok', fun e' he' => ?_, drop_distinct hok.distinct _⟩
  obtain ⟨he', hne⟩ := mem_drop.mp he'
  refine (hok.held e' he').kept (fun c hc => hok.heap.le_size hc) hkept fun c hc hcptr => ?_
  rw [hbefore, List.mem_append, List.mem_cons] at hc
  rw [hafter, List.mem_append]
  rcases hc with hc | rfl | hc
  · exact .inl hc
  · exact absurd (hcptr.trans hptr.symm) hne
  · exact .inr hc

/-! ### `realloc` and writing -/

/-- The entry of the new block, with what the old one held. -/
def regained (e : LiveBlock) (r : UserHeap × Nat) (size : Nat) : LiveBlock :=
  ⟨r.2, size, fun i => if i < min e.size size then e.data i else r.1.mem (r.2 + i)⟩

theorem ProgramOk.regain_eq (hok : ProgramOk p l) (he : e ∈ p.live) (r : UserHeap × Nat)
    (size : Nat) : UserProgram.regain p.live r e.ptr size =
      UserProgram.drop p.live e.ptr ++ [regained e r size] := by
  unfold UserProgram.regain
  rw [hok.find he]
  rfl

/-- The header of a block in use, seen from its pointer. -/
theorem HeapOk.pointer (hok : HeapOk h l) (hb : b ∈ usedBlocks l) {ptr : Nat}
    (hptr : ptr = b.addr + mallocHeaderSize) :
    ptr ≠ 0 ∧ sub64 ptr mallocHeaderSize = b.addr ∧
      hdrSize h.mem b.addr = b.size - mallocHeaderSize := by
  have hmem := (mem_usedBlocks.mp hb).1
  have hle := hok.le_size hb
  have hbound := hok.rep.tiles.bounds b hmem
  have hlt := hok.rep.hi_lt
  refine ⟨hptr ▸ Nat.succ_ne_zero _, ?_, (hok.rep.headers b hmem).size⟩
  unfold sub64
  unfold mallocHeaderSize at *
  omega

/-- The block is large enough as it is. -/
theorem ProgramOk.resize (hok : ProgramOk p l) (he : e ∈ p.live) {size : Nat}
    (hroom : size ≤ hdrSize p.heap.mem (sub64 e.ptr mallocHeaderSize)) :
    ProgramOk { p with live := UserProgram.regain p.live (p.heap, e.ptr) e.ptr size } l := by
  obtain ⟨b, hb, hptr, -⟩ := (hok.held e he).block
  obtain ⟨-, hhdr, hsize⟩ := hok.heap.pointer hb hptr
  rw [hhdr, hsize] at hroom
  rw [hok.regain_eq he]
  refine ⟨hok.heap, fun e' he' => ?_, distinct_snoc (drop_distinct hok.distinct _) fun e' he' => ?_⟩
  · rcases List.mem_append.mp he' with he' | he'
    · exact hok.held e' (mem_drop.mp he').1
    · rw [List.mem_singleton.mp he']
      refine ⟨⟨b, hb, hptr, hroom⟩, fun i _ => ?_⟩
      unfold regained
      dsimp only
      split_ifs with hi
      · exact (hok.held e he).data i (by omega)
      · rfl
  · exact (mem_drop.mp he').2

/-- The bytes are copied to a new block, and the old one is given back. -/
theorem ProgramOk.move (hok : ProgramOk p l) (he : e ∈ p.live) {size : Nat} {r : UserHeap × Nat}
    (hmalloc : MallocOk p.heap l size r l') (hne : r.2 ≠ 0)
    (hsmall : hdrSize p.heap.mem (sub64 e.ptr mallocHeaderSize) < size) :
    ∃ h' l'', userFree
        { r.1 with
          mem := copyBytes r.1.mem r.2 e.ptr (hdrSize r.1.mem (sub64 e.ptr mallocHeaderSize)) }
        e.ptr = some h' ∧
      ProgramOk { heap := h', live := UserProgram.regain p.live (h', r.2) e.ptr size } l'' := by
  obtain ⟨b, hb, hptr, hroom⟩ := (hok.held e he).block
  obtain ⟨-, hhdr, hsize⟩ := hok.heap.pointer hb hptr
  rw [hhdr, hsize] at hsmall
  have hgranted := hmalloc.result.resolve_left fun hnull => hne hnull.1
  obtain ⟨nb, hnb, hnptr, hnroom, hothers⟩ := hgranted.fresh hmalloc.ok
  have hb' := (hothers b hb).1
  have hapart : nb ≠ b := fun heq => (hothers b hb).2 (by rw [heq])
  rw [hhdr, (hmalloc.ok.pointer hb' hptr).2.2]
  obtain ⟨n, hn⟩ : ∃ n, n = b.size - mallocHeaderSize := ⟨_, rfl⟩
  rw [← hn] at hsmall hroom ⊢
  have hle := hok.heap.le_size hb
  have hnle := hmalloc.ok.le_size hnb
  -- The copy goes into the new block and nowhere else.
  obtain ⟨m, hm⟩ : ∃ m, m = copyBytes r.1.mem r.2 e.ptr n := ⟨_, rfl⟩
  have hcopied : ∀ i, i < nb.addr + mallocHeaderSize ∨ nb.addr + nb.size ≤ i → m i = r.1.mem i := by
    intro i hi
    rw [hm]
    exact copyBytes_outside (by omega)
  have hbytes : ∀ i, i < n → m (r.2 + i) = r.1.mem (e.ptr + i) := by
    intro i hi
    rw [hm]
    refine copyBytes_copied ?_ hi
    rcases Tiles.apart hmalloc.ok.rep.tiles (mem_usedBlocks.mp hnb).1 (mem_usedBlocks.mp hb').1
      hapart with hbefore | hbehind
    · exact .inr (by omega)
    · exact .inl (by omega)
  have hcopyok := hmalloc.ok.writes hnb hcopied
  obtain ⟨h', l'', hfree, hok', hkept, u₁, u₂, hbefore, hafter⟩ := userFree_ok hcopyok hb'
  rw [← hm]
  refine ⟨h', l'', hptr ▸ hfree, ?_⟩
  rw [hok.regain_eq he]
  have hstays : ∀ c ∈ usedBlocks l', c ≠ b → c ∈ usedBlocks l'' := by
    intro c hc hcb
    rw [hbefore, List.mem_append, List.mem_cons] at hc
    rw [hafter, List.mem_append]
    exact hc.imp id fun hor => hor.resolve_left hcb
  refine ⟨hok', fun e' he' => ?_, distinct_snoc (drop_distinct hok.distinct _) fun e' he' hsame => ?_⟩
  · rcases List.mem_append.mp he' with he' | he'
    · -- Another pointer: its block is neither the new nor the old one.
      obtain ⟨he', hother⟩ := mem_drop.mp he'
      obtain ⟨c, hc, hcptr, hcroom⟩ := (hok.held e' he').block
      have hcle := hok.heap.le_size hc
      have hcb : c ≠ b := by
        rintro rfl
        exact hother (hcptr.trans hptr.symm)
      have hc' := (hothers c hc).1
      have hnc : nb ≠ c := fun heq => (hothers c hc).2 (by rw [heq])
      refine ⟨⟨c, hstays c hc' hcb, hcptr, hcroom⟩, fun i hi => ?_⟩
      rw [← (hok.held e' he').data i hi]
      have hlo : c.addr + mallocHeaderSize ≤ e'.ptr + i := by omega
      have hhi : e'.ptr + i < c.addr + c.size := by omega
      exact (hkept c hc' _ hlo hhi).trans
        ((hmalloc.ok.writes_other hnb hc' hnc hcopied _ hlo hhi).trans (hmalloc.kept c hc _ hlo hhi))
    · rw [List.mem_singleton.mp he']
      refine ⟨⟨nb, hstays nb hnb hapart, hnptr, hnroom⟩, fun i _ => ?_⟩
      unfold regained
      dsimp only
      split_ifs with hi
      · have hin : i < n := by omega
        rw [← (hok.held e he).data i (by omega)]
        refine (hkept nb hnb (r.2 + i) (by omega) (by omega)).trans ((hbytes i hin).trans ?_)
        exact hmalloc.kept b hb (e.ptr + i) (by omega) (by omega)
      · rfl
  · obtain ⟨he', -⟩ := mem_drop.mp he'
    obtain ⟨c, hc, hcptr, -⟩ := (hok.held e' he').block
    refine (hothers c hc).2 (Nat.add_right_cancel (m := mallocHeaderSize) ?_)
    exact hcptr.symm.trans (hsame.trans hnptr)

/-- The program writes a byte of a block that it holds. -/
theorem ProgramOk.write (hok : ProgramOk p l) (he : e ∈ p.live) {i : Nat} (hi : i < e.size)
    (byte : Byte) :
    ProgramOk
      { heap := { p.heap with mem := Function.update p.heap.mem (e.ptr + i) byte }
        live := p.live.map fun e' =>
          if e'.ptr = e.ptr then { e' with data := Function.update e'.data i byte } else e' } l := by
  obtain ⟨b, hb, hptr, hroom⟩ := (hok.held e he).block
  have hsame : ∀ k, k < b.addr + mallocHeaderSize ∨ b.addr + b.size ≤ k →
      Function.update p.heap.mem (e.ptr + i) byte k = p.heap.mem k := by
    intro k hk
    rw [Function.update_of_ne (by omega)]
  refine ⟨hok.heap.writes hb hsame, fun e' he' => ?_, ?_⟩
  · obtain ⟨e', he'', rfl⟩ := List.mem_map.mp he'
    obtain ⟨c, hc, hcptr, hcroom⟩ := (hok.held e' he'').block
    have hdata := (hok.held e' he'').data
    split_ifs with hown
    · refine ⟨⟨c, hc, hcptr, hcroom⟩, fun k hk => ?_⟩
      dsimp only at hk ⊢
      by_cases hki : k = i
      · rw [hki, hown, Function.update_self, Function.update_self]
      · rw [Function.update_of_ne (by omega), Function.update_of_ne hki]
        exact hdata k hk
    · have hne : b ≠ c := by
        rintro rfl
        exact hown (hcptr.trans hptr.symm)
      have hcle := hok.heap.le_size hc
      refine ⟨⟨c, hc, hcptr, hcroom⟩, fun k hk => ?_⟩
      rw [← hdata k hk]
      exact hok.heap.writes_other hb hc hne hsame (e'.ptr + k) (by omega) (by omega)
  · rw [List.map_map]
    refine (congrArg List.Nodup (List.map_congr_left fun e' _ => ?_)).mpr hok.distinct
    dsimp only [Function.comp]
    split_ifs <;> rfl

/-! ### Every run -/

/-- Every call that the program may make returns, and leaves the heap and the pointers right. -/
theorem ProgramOk.next (brk : SystemBreak) (hok : ProgramOk p l) {call : HeapCall}
    (hallowed : p.Allowed call) :
    ∃ p' l', p.next brk call = some p' ∧ ProgramOk p' l' := by
  cases call with
  | malloc size =>
      obtain ⟨r, l', heq, hmalloc⟩ := malloc_ok brk hok.heap hallowed
      refine ⟨_, l', congrArg (Option.map _) heq, hok.gain hmalloc⟩
  | free ptr =>
      rcases hallowed with rfl | ⟨e, he, rfl⟩
      · refine ⟨_, l, rfl, hok.heap, fun e he => hok.held e (mem_drop.mp he).1,
          drop_distinct hok.distinct 0⟩
      · obtain ⟨h', l', heq, hok'⟩ := hok.free he
        exact ⟨_, l', congrArg (Option.map _) heq, hok'⟩
  | realloc ptr size =>
      obtain ⟨hsize, hptr⟩ := hallowed
      rw [UserProgram.next]
      by_cases hnull : ptr = 0
      · obtain ⟨r, l', heq, hmalloc⟩ := malloc_ok brk hok.heap hsize
        have hcall : realloc brk p.heap ptr size = some r := (if_pos hnull).trans heq
        rw [hcall, Option.map_some, if_pos hnull]
        exact ⟨_, l', rfl, hok.gain hmalloc⟩
      obtain ⟨e, he, rfl⟩ := hptr.resolve_left hnull
      by_cases hzero : size = 0
      · obtain ⟨h', l', heq, hok'⟩ := hok.free he
        have hcall : realloc brk p.heap e.ptr size = some (h', 0) :=
          (if_neg hnull).trans ((if_pos hzero).trans (congrArg (Option.map _) heq))
        rw [hcall, Option.map_some, if_neg hnull, if_pos hzero]
        exact ⟨_, l', rfl, hok'⟩
      by_cases hroom : size ≤ hdrSize p.heap.mem (sub64 e.ptr mallocHeaderSize)
      · have hcall : realloc brk p.heap e.ptr size = some (p.heap, e.ptr) :=
          (if_neg hnull).trans ((if_neg hzero).trans (if_pos hroom))
        rw [hcall, Option.map_some, if_neg hnull, if_neg hzero, if_neg hnull]
        exact ⟨_, l, rfl, hok.resize he hroom⟩
      obtain ⟨r, l', heq, hmalloc⟩ := malloc_ok brk hok.heap hsize
      have hcall : realloc brk p.heap e.ptr size =
          if r.2 = 0 then some r
          else
            (userFree
              { r.1 with
                mem := copyBytes r.1.mem r.2 e.ptr
                  (hdrSize r.1.mem (sub64 e.ptr mallocHeaderSize)) } e.ptr).map fun h => (h, r.2) := by
        unfold realloc
        rw [if_neg hnull, if_neg hzero]
        dsimp only
        rw [if_neg hroom, heq, Option.bind_some]
      by_cases hfail : r.2 = 0
      · rw [hcall, if_pos hfail, Option.map_some, if_neg hnull, if_neg hzero, if_pos hfail]
        exact ⟨_, l', rfl, hmalloc.ok, hok.after_malloc hmalloc, hok.distinct⟩
      · obtain ⟨h', l'', hfree, hok'⟩ := hok.move he hmalloc hfail (Nat.not_le.mp hroom)
        rw [hcall, if_neg hfail, hfree, Option.map_some, Option.map_some, if_neg hnull, if_neg hzero,
          if_neg hfail]
        exact ⟨_, l'', rfl, hok'⟩
  | write ptr i byte =>
      obtain ⟨e, he, rfl, hi⟩ := hallowed
      exact ⟨_, l, rfl, hok.write he hi byte⟩

/-- The blocks tile the heap, no two neighbours are free, and every pointer is that of a block of
its own. -/
structure HeapGood (p : UserProgram) : Prop where
  tiled : ∃ l, Tiles p.heap.heapStart l p.heap.heapBrk ∧ (∀ b ∈ l, IsHeader p.heap.mem b) ∧
    Coalesced l ∧ ∀ e ∈ p.live, HeapHeld p.heap.mem l e
  distinct : (p.live.map (·.ptr)).Nodup

/-- A call of `realloc` that is not refused keeps the bytes, as far as both sizes go. -/
def ReallocKeeps (brk : SystemBreak) (p : UserProgram) : Prop :=
  ∀ e ∈ p.live, ∀ size r, 0 < size → size < 2 ^ 63 → realloc brk p.heap e.ptr size = some r →
    r.2 ≠ 0 → ∀ i, i < min e.size size → r.1.mem (r.2 + i) = p.heap.mem (e.ptr + i)

theorem ProgramOk.good (hok : ProgramOk p l) : HeapGood p :=
  ⟨⟨l, hok.heap.rep.tiles, hok.heap.rep.headers, hok.heap.coalesced, hok.held⟩, hok.distinct⟩

theorem ProgramOk.realloc_keeps (hok : ProgramOk p l) : ReallocKeeps brk p := by
  intro e he size r hpos hsize hcall hne i hi
  have hallowed : p.Allowed (.realloc e.ptr size) := ⟨hsize, .inr ⟨e, he, rfl⟩⟩
  obtain ⟨p', l', hnext, hok'⟩ := hok.next brk hallowed
  obtain ⟨b, hb, hptr, -⟩ := (hok.held e he).block
  obtain ⟨hnull, -, -⟩ := hok.heap.pointer hb hptr
  rw [UserProgram.next, hcall, Option.map_some, if_neg hnull, if_neg hpos.ne', if_neg hne] at hnext
  rw [← Option.some.inj hnext, hok.regain_eq he] at hok'
  have hheld := hok'.held (regained e r size) (List.mem_append_right _ (List.mem_singleton.mpr rfl))
  have hbyte := hheld.data i (lt_of_lt_of_le hi (min_le_right _ _))
  unfold regained at hbyte
  dsimp only at hbyte
  rw [hbyte, if_pos hi, (hok.held e he).data i (lt_of_lt_of_le hi (min_le_left _ _))]

def HeapStep (brk : SystemBreak) (p : UserProgram) (call : HeapCall) (p' : UserProgram) : Prop :=
  p.next brk call = some p'

theorem programOk_start {start : Nat} (hpos : 0 < start) (hlt : start < 2 ^ 64) (mem : Mem) :
    ProgramOk (userHeapStart start mem) [] := by
  refine ⟨⟨⟨rfl, Nat.two_pow_pos 64, fun b hb => absurd hb (List.not_mem_nil)⟩, List.IsChain.nil,
    fun _ => ⟨rfl, rfl⟩, Nat.zero_le _, hpos, hlt⟩, fun e he => absurd he (List.not_mem_nil),
    List.nodup_nil⟩

end

/-- **The blocks tile the heap after any calls of a program that frees only what it holds; each of
its pointers has a block of its own, and its data survive. Every further call returns.** -/
theorem user_heap_good (brk : SystemBreak) {start : Nat} (hpos : 0 < start) (hlt : start < 2 ^ 64)
    {mem : Mem} {calls : List HeapCall} {p : UserProgram}
    (hrun : Executes (Guarded UserProgram.Allowed (HeapStep brk)) (userHeapStart start mem) calls p) :
    HeapGood p ∧ ReallocKeeps brk p ∧ ∀ call, p.Allowed call → ∃ p', HeapStep brk p call p' := by
  have hstep : ∀ p call p', (∃ l, ProgramOk p l) →
      Guarded UserProgram.Allowed (HeapStep brk) p call p' → ∃ l, ProgramOk p' l := by
    rintro p call p' ⟨l, hok⟩ ⟨hallowed, hnext⟩
    obtain ⟨p'', l', hnext', hok'⟩ := hok.next brk hallowed
    have hsame := Option.some.inj (hnext.symm.trans hnext')
    exact ⟨l', hsame ▸ hok'⟩
  obtain ⟨l, hok⟩ := hrun.invariant hstep ⟨[], programOk_start hpos hlt mem⟩
  refine ⟨hok.good, hok.realloc_keeps, fun call hallowed => ?_⟩
  obtain ⟨p', l', hnext, -⟩ := hok.next brk hallowed
  exact ⟨p', hnext⟩

/-- A system break that grants what it is asked for, unless it would have to shrink. -/
def growingBreak : SystemBreak where
  answer current addr := if addr = 0 ∨ addr < current then current else addr
  query _ := if_pos (.inl rfl)
  grows current addr hne h := by
    by_contra hlt
    rw [if_pos (.inr (Nat.lt_of_not_le hlt))] at h
    exact hlt h.le

/-- A block is given back and split, and its first part is moved behind it to grow. -/
theorem user_heap_good_grown :
    ∃ p, Executes (Guarded UserProgram.Allowed (HeapStep growingBreak))
        (userHeapStart 0x10000 fun _ => 0)
        [.malloc 24, .free 0x10010, .malloc 8, .write 0x10010 3 7, .realloc 0x10010 64] p ∧
      HeapGood p ∧ ReallocKeeps growingBreak p ∧
      ∀ call, p.Allowed call → ∃ p', HeapStep growingBreak p call p' := by
  have hrun : Executes (Guarded UserProgram.Allowed (HeapStep growingBreak))
      (userHeapStart 0x10000 fun _ => 0)
      [.malloc 24, .free 0x10010, .malloc 8, .write 0x10010 3 7, .realloc 0x10010 64] _ :=
    .cons ⟨by decide +kernel, rfl⟩ (.cons ⟨by decide +kernel, rfl⟩ (.cons ⟨by decide +kernel, rfl⟩
      (.cons ⟨by decide +kernel, rfl⟩ (.cons ⟨by decide +kernel, rfl⟩ (.nil _)))))
  exact ⟨_, hrun, user_heap_good growingBreak (by decide) (by decide) hrun⟩

end BrightS
