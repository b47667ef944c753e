/-
Pipes lose nothing.

A pipe is a ring: the body of the loop that writes puts one byte into it, the body of the
loop that reads gets one.  The loops are therefore a `take` and a `drop` on the stored
bytes, which is all that `pipes_lossless` needs: in any run the bytes that were accepted
by a pipe are those it returned and then those still in it.
-/
import BrightS.Kernel.Pipe
import BrightS.Lib.Queues

namespace BrightS

open Bytes Queues Runs

/-! ### A pipe as a ring -/

def Pipe.ring (p : Pipe) : RingBuf Byte := ⟨p.buf, p.rd, p.wr, p.len⟩

/-- The bytes in the pipe, the oldest first. -/
def Pipe.stored (p : Pipe) : List Byte := p.ring.stored pipeBufSize

/-- The ring is sound and there is a writer. -/
structure Pipe.Ready (p : Pipe) : Prop where
  sound : p.ring.Sound pipeBufSize
  writer : p.writeEndOpen = true

section Loops

variable {p : Pipe}

theorem Pipe.length_stored (p : Pipe) : p.stored.length = p.len := RingBuf.length_stored

theorem Pipe.Ready.put (h : p.Ready) (hroom : p.len < pipeBufSize) (byte : Byte) :
    (pipePut p byte).Ready :=
  ⟨h.sound.put hroom byte, h.writer⟩

theorem Pipe.Ready.next (h : p.Ready) (hpos : 0 < p.len) : (pipeNext p).Ready :=
  ⟨h.sound.get hpos, h.writer⟩

/-- The bytes that fit go behind those already there. -/
theorem pipeWriteLoop_spec (bytes : List Byte) :
    ∀ {p : Pipe}, p.Ready →
      (pipeWriteLoop p bytes).1.Ready ∧
      (pipeWriteLoop p bytes).2 = min bytes.length (pipeBufSize - p.len) ∧
      (pipeWriteLoop p bytes).1.stored = p.stored ++ bytes.take (pipeBufSize - p.len) := by
  induction bytes with
  | nil =>
      intro p h
      simp [pipeWriteLoop, h]
  | cons byte rest ih =>
      intro p h
      by_cases hfull : pipeBufSize ≤ p.len
      · rw [pipeWriteLoop, if_pos hfull, Nat.sub_eq_zero_of_le hfull]
        simp [h]
      · obtain ⟨hready, hwrote, hstored⟩ := ih (h.put (by omega) byte)
        have hput : (pipePut p byte).stored = p.stored ++ [byte] :=
          RingBuf.stored_put h.sound (show p.len < pipeBufSize by omega) byte
        have hlen : (pipePut p byte).len = p.len + 1 := rfl
        obtain ⟨room, hroom⟩ : ∃ room, pipeBufSize - p.len = room + 1 :=
          ⟨pipeBufSize - p.len - 1, by omega⟩
        have hless : pipeBufSize - (p.len + 1) = room := by omega
        rw [hlen, hless] at hwrote hstored
        rw [pipeWriteLoop, if_neg hfull, hroom]
        refine ⟨hready, ?_, ?_⟩
        · show (pipeWriteLoop (pipePut p byte) rest).2 + 1 = _
          rw [hwrote, List.length_cons]
          omega
        · rw [hstored, hput, List.take_succ_cons, List.append_assoc]
          rfl

/-- The oldest bytes come out, as many as there are. -/
theorem pipeReadLoop_spec (n : Nat) :
    ∀ {p : Pipe}, p.Ready →
      (pipeReadLoop p n).1.Ready ∧
      (pipeReadLoop p n).2 = p.stored.take n ∧
      (pipeReadLoop p n).1.stored = p.stored.drop n := by
  induction n with
  | zero =>
      intro p h
      simp [pipeReadLoop, h]
  | succ n ih =>
      intro p h
      by_cases hempty : p.len = 0
      · have hnone : p.stored = [] := RingBuf.stored_empty hempty
        rw [pipeReadLoop, if_pos hempty]
        simp [h, hnone]
      · have hpos : 0 < p.len := Nat.pos_of_ne_zero hempty
        obtain ⟨hready, hread, hstored⟩ := ih (h.next hpos)
        have hfirst : p.stored = p.buf p.rd :: (pipeNext p).stored :=
          RingBuf.stored_get h.sound hpos
        rw [pipeReadLoop, if_neg hempty, hfirst]
        refine ⟨hready, ?_, ?_⟩
        · show p.buf p.rd :: (pipeReadLoop (pipeNext p) n).2 = _
          rw [hread, List.take_succ_cons]
        · rw [hstored, List.drop_succ_cons]

end Loops

/-! ### Runs -/

/-- A call with what came back from it. -/
inductive PipeCall where
  | create
  | write (idx : Int) (src : Option (List Byte)) (ret : Int)
  | read (idx : Int) (dst : Bool) (n : Nat) (out : List Byte) (ret : Int)

def Pipes.step (s : Pipes) (c : PipeCall) (s' : Pipes) : Prop :=
  match c with
  | .create => s' = (pipeCreate s).1
  | .write idx src ret => pipesWrite s idx src = (s', ret)
  | .read idx dst n out ret => pipesRead s idx dst n = (s', out, ret)

/-- The pipe table before any pipe was made. -/
def Pipes.start (pipeTable : Nat → Pipe) : Pipes := ⟨pipeTable, 0⟩

/-- The bytes a write to pipe `i` says it has accepted. -/
def acceptedBy (i : Nat) : PipeCall → List Byte
  | .write idx (some bytes) ret => if idx = i then bytes.take ret.toNat else []
  | _ => []

/-- The bytes a read of pipe `i` returned. -/
def returnedBy (i : Nat) : PipeCall → List Byte
  | .read idx _ _ out _ => if idx = i then out else []
  | _ => []

/-- Each pipe there is can be used. -/
def Pipes.Ready (s : Pipes) : Prop := ∀ i, i < s.pipeCount → (s.pipeTable i).Ready

/-- The bytes in pipe `i`, if there is such a pipe. -/
def Pipes.held (i : Nat) (s : Pipes) : List Byte :=
  if i < s.pipeCount then (s.pipeTable i).stored else []

section Steps

variable {s s' : Pipes} {i j : Nat} {idx : Int}

theorem pipeGet_eq_some : pipeGet s idx = some i ↔ i < s.pipeCount ∧ idx = i := by
  unfold pipeGet
  split
  · simp
    omega
  · rw [Option.some.injEq]
    omega

theorem Pipes.put_self (s : Pipes) (i : Nat) (p : Pipe) : (s.put i p).pipeTable i = p := by
  simp [Pipes.put]

theorem Pipes.put_of_ne (s : Pipes) (p : Pipe) (hne : j ≠ i) :
    (s.put i p).pipeTable j = s.pipeTable j := by
  simp [Pipes.put, hne]

theorem Pipes.Ready.put (h : s.Ready) {p : Pipe} (hp : p.Ready) : (s.put i p).Ready := by
  intro j hj
  by_cases hji : j = i
  · rw [hji, s.put_self]
    exact hp
  · rw [s.put_of_ne p hji]
    exact h j hj

theorem Pipes.held_put {p : Pipe} (hj : j < s.pipeCount) :
    Pipes.held i (s.put j p) = if j = i then p.stored else Pipes.held i s := by
  by_cases hji : j = i
  · subst hji
    rw [if_pos rfl, Pipes.held, if_pos (show j < (s.put j p).pipeCount from hj), s.put_self]
  · rw [if_neg hji, Pipes.held, s.put_of_ne p (Ne.symm hji)]
    rfl

/-- **What a write accepts**: as much as there is room for. -/
theorem pipesWrite_spec (hs : s.Ready) (hi : i < s.pipeCount) (bytes : List Byte) :
    ∃ p, p.Ready ∧
      pipesWrite s i (some bytes) =
        (s.put i p, ((min bytes.length (pipeBufSize - (s.pipeTable i).len) : Nat) : Int)) ∧
      p.stored = (s.pipeTable i).stored ++ bytes.take (pipeBufSize - (s.pipeTable i).len) := by
  obtain ⟨hready, hwrote, hstored⟩ := pipeWriteLoop_spec bytes (hs i hi)
  refine ⟨_, hready, ?_, hstored⟩
  have hopen : ¬ (s.pipeTable i).writeEndOpen = false := by simp [(hs i hi).writer]
  simp only [pipesWrite, pipeGet_eq_some.mpr ⟨hi, rfl⟩, pipeWrite]
  rw [if_neg hopen, hwrote]

/-- What a read returns: the oldest bytes, as many as there are. -/
theorem pipesRead_spec (hs : s.Ready) (hi : i < s.pipeCount) (n : Nat) :
    ∃ p, p.Ready ∧
      pipesRead s i true n =
        (s.put i p, (s.pipeTable i).stored.take n, (((s.pipeTable i).stored.take n).length : Int)) ∧
      p.stored = (s.pipeTable i).stored.drop n := by
  obtain ⟨hready, hread, hstored⟩ := pipeReadLoop_spec n (hs i hi)
  refine ⟨_, hready, ?_, hstored⟩
  simp only [pipesRead, pipeGet_eq_some.mpr ⟨hi, rfl⟩, pipeRead]
  rw [if_neg (by simp), hread]

/-- A pipe is made, or there are too many. -/
theorem pipeCreate_account (hs : s.Ready) (i : Nat) :
    (pipeCreate s).1.Ready ∧ Pipes.held i (pipeCreate s).1 = Pipes.held i s := by
  unfold pipeCreate
  split
  · exact ⟨hs, rfl⟩
  · refine ⟨fun j hj => ?_, ?_⟩
    · by_cases hnew : j = s.pipeCount
      · subst hnew
        dsimp only
        rw [Function.update_self]
        exact ⟨RingBuf.Sound.empty _ (by decide), rfl⟩
      · dsimp only at hj ⊢
        rw [Function.update_of_ne hnew]
        exact hs j (by omega)
    · unfold Pipes.held
      dsimp only
      by_cases hnew : i = s.pipeCount
      · rw [if_pos (by omega), if_neg (by omega), hnew, Function.update_self]
        exact RingBuf.stored_empty rfl
      · rw [Function.update_of_ne hnew]
        by_cases hlt : i < s.pipeCount
        · rw [if_pos (by omega), if_pos hlt]
        · rw [if_neg (by omega), if_neg hlt]

/-- Each call accounts for the bytes of each pipe. -/
theorem Pipes.step_account (i : Nat) {c : PipeCall} (hs : s.Ready) (hstep : s.step c s') :
    s'.Ready ∧ Pipes.held i s ++ acceptedBy i c = returnedBy i c ++ Pipes.held i s' := by
  cases c with
  | create =>
      obtain ⟨hready, hheld⟩ := pipeCreate_account hs i
      rw [show s' = (pipeCreate s).1 from hstep]
      exact ⟨hready, by simp [acceptedBy, returnedBy, hheld]⟩
  | write idx src ret =>
      cases hidx : pipeGet s idx with
      | none =>
          simp only [Pipes.step, pipesWrite, hidx, Prod.mk.injEq] at hstep
          obtain ⟨rfl, rfl⟩ := hstep
          refine ⟨hs, ?_⟩
          cases src with
          | none => simp [acceptedBy, returnedBy]
          | some bytes => simp [acceptedBy, returnedBy]
      | some j =>
          obtain ⟨hj, rfl⟩ := pipeGet_eq_some.mp hidx
          cases src with
          | none =>
              simp only [Pipes.step, pipesWrite, hidx, pipeWrite, Prod.mk.injEq] at hstep
              obtain ⟨rfl, -⟩ := hstep
              refine ⟨hs.put (hs j hj), ?_⟩
              rw [Pipes.held_put hj]
              by_cases hji : j = i
              · subst hji
                simp [acceptedBy, returnedBy, Pipes.held, hj]
              · simp [acceptedBy, returnedBy, hji]
          | some bytes =>
              obtain ⟨p, hp, hcall, hstored⟩ := pipesWrite_spec hs hj bytes
              rw [Pipes.step, hcall, Prod.mk.injEq] at hstep
              obtain ⟨rfl, rfl⟩ := hstep
              refine ⟨hs.put hp, ?_⟩
              rw [Pipes.held_put hj]
              by_cases hji : j = i
              · subst hji
                simp only [acceptedBy, returnedBy, Pipes.held, if_pos hj, if_true, Int.toNat_natCast,
                  List.nil_append]
                rw [hstored, List.take_eq_take_iff.mpr]
                omega
              · simp [acceptedBy, returnedBy, hji]
  | read idx dst n out ret =>
      cases hidx : pipeGet s idx with
      | none =>
          simp only [Pipes.step, pipesRead, hidx, Prod.mk.injEq] at hstep
          obtain ⟨rfl, rfl, rfl⟩ := hstep
          exact ⟨hs, by simp [acceptedBy, returnedBy]⟩
      | some j =>
          obtain ⟨hj, rfl⟩ := pipeGet_eq_some.mp hidx
          cases dst with
          | false =>
              simp only [Pipes.step, pipesRead, hidx, pipeRead, if_true, Prod.mk.injEq] at hstep
              obtain ⟨rfl, rfl, -⟩ := hstep
              refine ⟨hs.put (hs j hj), ?_⟩
              rw [Pipes.held_put hj]
              by_cases hji : j = i
              · subst hji
                simp [acceptedBy, returnedBy, Pipes.held, hj]
              · simp [acceptedBy, returnedBy, hji]
          | true =>
              obtain ⟨p, hp, hcall, hstored⟩ := pipesRead_spec hs hj n
              rw [Pipes.step, hcall, Prod.mk.injEq, Prod.mk.injEq] at hstep
              obtain ⟨rfl, rfl, -⟩ := hstep
              refine ⟨hs.put hp, ?_⟩
              rw [Pipes.held_put hj]
              by_cases hji : j = i
              · subst hji
                simp [acceptedBy, returnedBy, Pipes.held, hj, hstored, List.take_append_drop]
              · simp [acceptedBy, returnedBy, hji]

end Steps

/-! ### The result -/

/-- Only the pipe that is called changes. -/
theorem Pipes.step_other {s s' : Pipes} {c : PipeCall} {i : Nat} (hstep : s.step c s')
    (hc : (∃ src ret, c = .write i src ret) ∨ ∃ dst n out ret, c = .read i dst n out ret) :
    ∀ j, j ≠ i → s'.pipeTable j = s.pipeTable j := by
  intro j hne
  have hget : pipeGet s i = none ∨ pipeGet s i = some i := by
    by_cases hi : i < s.pipeCount
    · exact .inr (pipeGet_eq_some.mpr ⟨hi, rfl⟩)
    · refine .inl (Option.eq_none_iff_forall_ne_some.mpr fun k hk => ?_)
      obtain ⟨hlt, heq⟩ := pipeGet_eq_some.mp hk
      omega
  rcases hc with ⟨src, ret, rfl⟩ | ⟨dst, n, out, ret, rfl⟩
  · rcases hget with hnone | hsome
    · simp only [Pipes.step, pipesWrite, hnone, Prod.mk.injEq] at hstep
      rw [← hstep.1]
    · simp only [Pipes.step, pipesWrite, hsome, Prod.mk.injEq] at hstep
      rw [← hstep.1, s.put_of_ne _ hne]
  · rcases hget with hnone | hsome
    · simp only [Pipes.step, pipesRead, hnone, Prod.mk.injEq] at hstep
      rw [← hstep.1]
    · simp only [Pipes.step, pipesRead, hsome, Prod.mk.injEq] at hstep
      rw [← hstep.1, s.put_of_ne _ hne]

/-- **Pipes are lossless queues**: after any calls on any pipes, the bytes a pipe has accepted are
those it has returned, in order, and then those in it, of which there are `len`; a write accepts
what there is room for, and no call touches another pipe. -/
theorem pipes_lossless {pipeTable : Nat → Pipe} {s : Pipes} {calls : List PipeCall}
    (hrun : Executes Pipes.step (Pipes.start pipeTable) calls s) {i : Nat} (hi : i < s.pipeCount) :
    (calls.flatMap (acceptedBy i) = calls.flatMap (returnedBy i) ++ (s.pipeTable i).stored ∧
      (s.pipeTable i).stored.length = (s.pipeTable i).len ∧
      (s.pipeTable i).len ≤ pipeBufSize) ∧
    (∀ bytes ret s', s.step (.write i (some bytes) ret) s' →
      ret = (min bytes.length (pipeBufSize - (s.pipeTable i).len) : Nat) ∧
      ∀ j, j ≠ i → s'.pipeTable j = s.pipeTable j) ∧
    (∀ dst n out ret s', s.step (.read i dst n out ret) s' →
      ∀ j, j ≠ i → s'.pipeTable j = s.pipeTable j) := by
  have hstart : (Pipes.start pipeTable).Ready := fun j hj => absurd hj (Nat.not_lt_zero j)
  have hready : s.Ready :=
    hrun.invariant (P := Pipes.Ready) (fun _ _ _ hs hstep => (Pipes.step_account i hs hstep).1)
      hstart
  have haccount := account (Pipes.held i)
    (fun _ _ _ hs hstep => Pipes.step_account i hs hstep) hrun hstart
  refine ⟨⟨?_, Pipe.length_stored _, (hready i hi).sound.len_le⟩, fun bytes ret s' hstep => ?_,
    fun dst n out ret s' hstep => Pipes.step_other hstep (.inr ⟨dst, n, out, ret, rfl⟩)⟩
  · have hbefore : Pipes.held i (Pipes.start pipeTable) = [] := if_neg (Nat.not_lt_zero i)
    have hafter : Pipes.held i s = (s.pipeTable i).stored := if_pos hi
    rw [hbefore, hafter, List.nil_append] at haccount
    exact haccount
  · refine ⟨?_, Pipes.step_other hstep (.inl ⟨_, ret, rfl⟩)⟩
    obtain ⟨p, -, hcall, -⟩ := pipesWrite_spec hready hi bytes
    rw [Pipes.step, hcall, Prod.mk.injEq] at hstep
    exact hstep.2.symm

/-- Three bytes go into the first pipe and two come out. -/
theorem pipes_lossless_three :
    ∃ s, Executes Pipes.step (Pipes.start fun _ => ⟨fun _ => 0, 0, 0, 0, false, false⟩)
        [.create, .write 0 (some [1, 2, 3]) 3, .read 0 true 2 [1, 2] 2] s ∧
      [1, 2, 3] = [1, 2] ++ (s.pipeTable 0).stored ∧
      ∀ ret s', s.step (.write 0 (some [4]) ret) s' → s'.pipeTable 1 = s.pipeTable 1 := by
  have hrun : Executes Pipes.step (Pipes.start fun _ => ⟨fun _ => 0, 0, 0, 0, false, false⟩)
      [.create, .write 0 (some [1, 2, 3]) 3, .read 0 true 2 [1, 2] 2] _ :=
    .cons rfl (.cons rfl (.cons rfl (.nil _)))
  obtain ⟨⟨haccount, -, -⟩, hwrite, -⟩ := pipes_lossless hrun (i := 0) Nat.one_pos
  exact ⟨_, hrun, haccount, fun ret s' hstep => (hwrite _ ret s' hstep).2 1 (by decide)⟩

end BrightS
