/-
Receive buffers are bounded queues.

The first `recvLen` bytes of an array are a queue: receiving puts bytes behind them, and a
read takes bytes off their front, because the loop that moves the rest down leaves each byte
where the byte `len` places behind it was.  So each call accounts for the bytes of every
socket, and so does each run.

The same two facts say that the arrays do what the lists of `Kernel/Net` do.
-/
import BrightS.Kernel.NetRecv
import BrightS.Lib.Queues
import BrightS.Proofs.NetFrames

namespace BrightS

open Bytes Queues Runs

/-! ### One array -/

section Arrays

variable {a : RecvArray}

/-- The bytes that wait, the oldest first. -/
def RecvArray.waiting (a : RecvArray) : List Byte := slice a.recvBuf 0 a.recvLen

theorem slice_append (buf : Mem) (o n k : Nat) :
    slice buf o (n + k) = slice buf o n ++ slice buf (o + n) k := by
  simp only [slice, List.range_add, List.map_append, List.map_map]
  congr 1
  refine List.map_congr_left fun i _ => ?_
  show buf (o + (n + i)) = buf (o + n + i)
  rw [Nat.add_assoc]

theorem slice_copyTo (buf : Mem) (dst : Nat) (bytes : List Byte) :
    slice (copyTo buf dst bytes) 0 (dst + bytes.length) = slice buf 0 dst ++ bytes := by
  rw [slice_append, Nat.zero_add]
  congr 1
  · refine slice_congr fun o _ ho => ?_
    exact if_neg (by omega)
  · rw [slice_eq_iff]
    intro i hi
    rw [copyTo, if_pos (by omega), Nat.add_sub_cancel_left, List.getD_eq_getElem _ _ hi]

/-- The bytes behind the first `n` have not moved yet. -/
theorem shiftDown_apply (buf : Mem) (len n : Nat) :
    ∀ o, shiftDown buf len n o = if o < n then buf (o + len) else buf o := by
  induction n with
  | zero =>
      intro o
      rw [if_neg (by omega)]
      rfl
  | succ n ih =>
      intro o
      unfold shiftDown at ih ⊢
      rw [List.range_succ, List.foldl_append, List.foldl_cons, List.foldl_nil, ih,
        if_neg (by omega)]
      by_cases ho : o = n
      · rw [ho, Function.update_self, if_pos (by omega)]
      · rw [Function.update_of_ne ho, ih]
        by_cases hlt : o < n
        · rw [if_pos hlt, if_pos (by omega)]
        · rw [if_neg hlt, if_neg (by omega)]

theorem RecvArray.waiting_receive (a : RecvArray) (m : Mem) (payload len : Nat) :
    (a.receive m payload len).waiting =
      a.waiting ++ slice m payload (min len (recvBufSize - a.recvLen)) := by
  have hcopy := slice_copyTo a.recvBuf a.recvLen
    (slice m payload (min len (recvBufSize - a.recvLen)))
  rw [length_slice] at hcopy
  exact hcopy

theorem RecvArray.waiting_consume (a : RecvArray) {n : Nat} (hn : n ≤ a.recvLen) :
    a.waiting = slice a.recvBuf 0 n ++ (a.consume n).waiting := by
  have hsplit : a.waiting = slice a.recvBuf 0 n ++ slice a.recvBuf n (a.recvLen - n) := by
    have happend := slice_append a.recvBuf 0 n (a.recvLen - n)
    rw [Nat.zero_add, Nat.add_sub_cancel' hn] at happend
    exact happend
  rw [hsplit]
  congr 1
  unfold RecvArray.waiting RecvArray.consume
  dsimp only
  refine List.map_congr_left fun i hi => ?_
  have hlt := List.mem_range.mp hi
  rw [if_pos (by omega), shiftDown_apply, if_pos (by omega)]
  congr 1
  omega

theorem RecvArray.length_waiting (a : RecvArray) : a.waiting.length = a.recvLen :=
  length_slice ..

end Arrays

/-! ### The arrays and the lists -/

/-- The waiting bytes as `Kernel/Net` has them. -/
def RecvArray.toRecvBuf (a : RecvArray) : RecvBuf where
  bytes := a.waiting
  fits := by
    rw [a.length_waiting]
    exact a.fits

def RecvNet.toNet (s : RecvNet) : Net :=
  { s.net with
    sockets := fun i => { s.net.sockets i with recv := (s.arrays i).toRecvBuf } }

section Refines

variable {s : RecvNet}

theorem RecvBuf.ext {b b' : RecvBuf} (h : b.bytes = b'.bytes) : b = b' := by
  cases b
  cases b'
  cases h
  rfl

theorem RecvArray.toRecvBuf_receive (a : RecvArray) (m : Mem) (payload len : Nat) :
    (a.receive m payload len).toRecvBuf =
      a.toRecvBuf.push (slice m payload (min len a.toRecvBuf.avail)) := by
  have havail : a.toRecvBuf.avail = recvBufSize - a.recvLen := by
    show recvBufSize - a.waiting.length = _
    rw [a.length_waiting]
  apply RecvBuf.ext
  show (a.receive m payload len).waiting = a.waiting ++ List.take _ _
  rw [a.waiting_receive, havail, List.take_of_length_le]
  rw [length_slice]
  omega

theorem RecvArray.toRecvBuf_consume (a : RecvArray) {n : Nat} (hn : n ≤ a.recvLen) :
    (a.consume n).toRecvBuf = a.toRecvBuf.drop n ∧
      a.toRecvBuf.bytes.take n = slice a.recvBuf 0 n := by
  have hsplit := a.waiting_consume hn
  have hlength : (slice a.recvBuf 0 n).length = n := length_slice ..
  refine ⟨RecvBuf.ext ?_, ?_⟩
  · show (a.consume n).waiting = a.waiting.drop n
    rw [hsplit, List.drop_left' hlength]
  · show a.waiting.take n = _
    rw [hsplit, List.take_left' hlength]

/-- The socket a datagram goes to does not depend on what waits. -/
theorem udpSocket_toNet (s : RecvNet) (port : Port) :
    udpSocket s.toNet port = udpSocket s.net port := rfl

theorem openSocket_toNet (s : RecvNet) (sockfd : Int) :
    openSocket s.toNet sockfd = openSocket s.net sockfd := rfl

theorem toNet_setArray (s : RecvNet) (i : Nat) (a : RecvArray) :
    (s.setArray i a).toNet =
      s.toNet.setSocket i { s.net.sockets i with recv := a.toRecvBuf } := by
  unfold RecvNet.toNet RecvNet.setArray Net.setSocket
  dsimp only
  congr 1
  funext j
  by_cases hj : j = i
  · subst hj
    simp
  · simp [hj]

/-- **`udp_handle` does to the arrays what it does to the lists.** -/
theorem udpHandleArray_toNet (s : RecvNet) (m : Mem) (data len : Nat) (srcIp : Ip) :
    (udpHandleArray s m data len srcIp).1.toNet = udpHandle s.toNet m data len srcIp := by
  unfold udpHandleArray udpHandle
  split
  · rfl
  dsimp only
  rw [udpSocket_toNet]
  cases hsock : udpSocket s.net (swap16 (udpHdrAt m data).dstPort) with
  | none => rfl
  | some i =>
      have havail : (s.toNet.sockets i).recv.avail = recvBufSize - (s.arrays i).recvLen := by
        show recvBufSize - (s.arrays i).waiting.length = _
        rw [RecvArray.length_waiting]
      dsimp only
      rw [havail]
      split
      · have hpush := (s.arrays i).toRecvBuf_receive m (data + udpHdrSize) (len - udpHdrSize)
        have hroom : (s.arrays i).toRecvBuf.avail = recvBufSize - (s.arrays i).recvLen := havail
        rw [hroom] at hpush
        unfold RecvNet.toNet Net.setSocket
        dsimp only
        congr 1
        funext j
        by_cases hj : j = i
        · subst hj
          simp [hpush]
        · simp [hj]
      · rfl

/-- **`brights_recv` does to the arrays what it does to the lists.** -/
theorem brightsRecvArray_toNet (s : RecvNet) (sockfd : Int) (len : Nat) :
    brightsRecv s.toNet sockfd len =
      ((brightsRecvArray s sockfd len).1.toNet, (brightsRecvArray s sockfd len).2) := by
  unfold brightsRecvArray brightsRecv
  rw [openSocket_toNet]
  cases hsock : openSocket s.net sockfd with
  | none => rfl
  | some i =>
      have hlength : (s.toNet.sockets i).recv.bytes.length = (s.arrays i).recvLen :=
        (s.arrays i).length_waiting
      obtain ⟨hdrop, htake⟩ :=
        (s.arrays i).toRecvBuf_consume (Nat.min_le_right len (s.arrays i).recvLen)
      dsimp only
      rw [hlength]
      split
      · rename_i hempty
        have hnone : (s.arrays i).waiting = [] := by
          apply List.eq_nil_of_length_eq_zero
          rw [RecvArray.length_waiting, hempty]
        have hsame : (s.toNet.sockets i).recv.drop 0 = (s.toNet.sockets i).recv :=
          RecvBuf.ext (List.drop_zero ..)
        rw [hempty, Nat.min_zero, hsame]
        refine Prod.ext ?_ rfl
        unfold Net.setSocket
        exact congrArg (fun f => { s.toNet with sockets := f })
          (Function.update_eq_self i s.toNet.sockets)
      · rw [toNet_setArray, hdrop]
        exact Prod.ext rfl (Prod.ext htake rfl)

end Refines

/-! ### Runs -/

/-- A delivery with the bytes that were accepted, a read with its answer. -/
inductive RecvCall where
  | deliver (m : Mem) (data len : Nat) (srcIp : Ip) (got : Option (Nat × List Byte))
  | recv (sockfd : Int) (len : Nat) (out : List Byte) (ret : Int)

def RecvNet.step (s : RecvNet) (c : RecvCall) (s' : RecvNet) : Prop :=
  match c with
  | .deliver m data len srcIp got => udpHandleArray s m data len srcIp = (s', got)
  | .recv sockfd len out ret => brightsRecvArray s sockfd len = (s', out, ret)

/-- The payload bytes that were accepted for socket `i`. -/
def RecvCall.accepted (i : Nat) : RecvCall → List Byte
  | .deliver _ _ _ _ (some (j, bytes)) => if j = i then bytes else []
  | _ => []

/-- The bytes that were read from socket `i`. -/
def RecvCall.returned (i : Nat) : RecvCall → List Byte
  | .recv sockfd _ out _ => if sockfd = i then out else []
  | _ => []

section Steps

variable {s s' : RecvNet} {c : RecvCall}

theorem RecvNet.setArray_apply (s : RecvNet) (i j : Nat) (a : RecvArray) :
    (s.setArray i a).arrays j = if j = i then a else s.arrays j := by
  simp [RecvNet.setArray, Function.update_apply]

/-- What a delivery does: nothing, or it adds what fits of the payload to one socket. -/
theorem deliver_cases {m : Mem} {data len : Nat} {srcIp : Ip} {got : Option (Nat × List Byte)}
    (hstep : s.step (.deliver m data len srcIp got) s') :
    (got = none ∧ s' = s) ∨
    ∃ i, got = some (i, slice m (data + udpHdrSize)
          (min (len - udpHdrSize) (recvBufSize - (s.arrays i).recvLen))) ∧
      (s'.arrays i).waiting = (s.arrays i).waiting ++ slice m (data + udpHdrSize)
          (min (len - udpHdrSize) (recvBufSize - (s.arrays i).recvLen)) ∧
      ∀ j, j ≠ i → s'.arrays j = s.arrays j ∧ s'.net.sockets j = s.net.sockets j := by
  simp only [RecvNet.step, udpHandleArray] at hstep
  split at hstep
  · simp only [Prod.mk.injEq] at hstep
    exact .inl ⟨hstep.2.symm, hstep.1.symm⟩
  · split at hstep
    · simp only [Prod.mk.injEq] at hstep
      exact .inl ⟨hstep.2.symm, hstep.1.symm⟩
    · rename_i i hsock
      refine .inr ⟨i, ?_⟩
      split at hstep
      · simp only [Prod.mk.injEq] at hstep
        obtain ⟨rfl, rfl⟩ := hstep
        refine ⟨rfl, ?_, fun j hj => ⟨Function.update_of_ne hj _ _, Function.update_of_ne hj _ _⟩⟩
        dsimp only
        rw [Function.update_self]
        exact (s.arrays i).waiting_receive m _ _
      · rename_i hnone
        simp only [Prod.mk.injEq] at hstep
        obtain ⟨rfl, rfl⟩ := hstep
        have hzero : min (len - udpHdrSize) (recvBufSize - (s.arrays i).recvLen) = 0 := by omega
        rw [hzero]
        exact ⟨rfl, (List.append_nil _).symm, fun j _ => ⟨rfl, rfl⟩⟩

/-- What a read does: nothing, or it takes bytes off the front of one socket. -/
theorem recv_cases {sockfd : Int} {len : Nat} {out : List Byte} {ret : Int}
    (hstep : s.step (.recv sockfd len out ret) s') :
    (out = [] ∧ s' = s) ∨
    ∃ i : Nat, sockfd = i ∧ (s.arrays i).waiting = out ++ (s'.arrays i).waiting ∧
      s'.net = s.net ∧ ∀ j, j ≠ i → s'.arrays j = s.arrays j := by
  simp only [RecvNet.step, brightsRecvArray] at hstep
  split at hstep
  · simp only [Prod.mk.injEq] at hstep
    exact .inl ⟨hstep.2.1.symm, hstep.1.symm⟩
  · rename_i i hsock
    split at hstep
    · simp only [Prod.mk.injEq] at hstep
      exact .inl ⟨hstep.2.1.symm, hstep.1.symm⟩
    · simp only [Prod.mk.injEq] at hstep
      obtain ⟨rfl, rfl, -⟩ := hstep
      have hfd : sockfd = i := by
        unfold openSocket at hsock
        split at hsock
        · exact absurd hsock (by simp)
        · split at hsock
          · have hi := Option.some.inj hsock
            omega
          · exact absurd hsock (by simp)
      refine .inr ⟨i, hfd, ?_, rfl, fun j hj => ?_⟩
      · rw [RecvNet.setArray_apply, if_pos rfl]
        exact (s.arrays i).waiting_consume (Nat.min_le_right _ _)
      · rw [RecvNet.setArray_apply, if_neg hj]

/-- Each call accounts for the bytes of each socket. -/
theorem RecvNet.step_account (i : Nat) (hstep : s.step c s') :
    (s.arrays i).waiting ++ c.accepted i = c.returned i ++ (s'.arrays i).waiting := by
  cases c with
  | deliver m data len srcIp got =>
      rcases deliver_cases hstep with ⟨rfl, rfl⟩ | ⟨j, rfl, hwaiting, hother⟩
      · simp [RecvCall.accepted, RecvCall.returned]
      · by_cases hj : j = i
        · subst hj
          simp [RecvCall.accepted, RecvCall.returned, hwaiting]
        · simp [RecvCall.accepted, RecvCall.returned, hj, (hother i (Ne.symm hj)).1]
  | recv sockfd len out ret =>
      rcases recv_cases hstep with ⟨rfl, rfl⟩ | ⟨j, rfl, hwaiting, -, hother⟩
      · simp [RecvCall.accepted, RecvCall.returned]
      · by_cases hj : j = i
        · subst hj
          simp [RecvCall.accepted, RecvCall.returned, hwaiting]
        · simp [RecvCall.accepted, RecvCall.returned, hj, hother i (Ne.symm hj)]

end Steps

/-- **Receive buffers are bounded queues**: over any deliveries and reads, what a socket held and
then accepted is what was read from it, in order, and then the `recvLen` bytes it holds now; a
delivery accepts as much of its payload as fits, and no call touches another socket. -/
theorem recv_buffers_fifo {s s' : RecvNet} {calls : List RecvCall}
    (hrun : Executes RecvNet.step s calls s') (i : Nat) :
    (s'.arrays i).recvLen ≤ recvBufSize ∧
    (s'.arrays i).waiting.length = (s'.arrays i).recvLen ∧
    (s.arrays i).waiting ++ calls.flatMap (RecvCall.accepted i) =
      calls.flatMap (RecvCall.returned i) ++ (s'.arrays i).waiting ∧
    (∀ m data len srcIp j bytes next, s'.step (.deliver m data len srcIp (some (j, bytes))) next →
      bytes = slice m (data + udpHdrSize)
        (min (len - udpHdrSize) (recvBufSize - (s'.arrays j).recvLen)) ∧
      ∀ k, k ≠ j → next.arrays k = s'.arrays k ∧ next.net.sockets k = s'.net.sockets k) ∧
    (∀ m data len srcIp next, s'.step (.deliver m data len srcIp none) next → next = s') ∧
    (∀ sockfd len out ret next, s'.step (.recv sockfd len out ret) next →
      next.net = s'.net ∧ ∀ k : Nat, sockfd ≠ k → next.arrays k = s'.arrays k) := by
  refine ⟨(s'.arrays i).fits, RecvArray.length_waiting _, ?_, fun m data len srcIp j bytes next hstep =>
    ?_, fun m data len srcIp next hstep => ?_, fun sockfd len out ret next hstep => ?_⟩
  · exact account (P := fun _ => True) (fun s : RecvNet => (s.arrays i).waiting)
      (fun _ _ _ _ hstep => ⟨trivial, RecvNet.step_account i hstep⟩) hrun trivial
  · rcases deliver_cases hstep with ⟨hgot, -⟩ | ⟨k, hgot, -, hother⟩
    · exact absurd hgot (by simp)
    · obtain ⟨rfl, rfl⟩ := Prod.mk.inj (Option.some.inj hgot)
      exact ⟨rfl, hother⟩
  · rcases deliver_cases hstep with ⟨-, hsame⟩ | ⟨k, hgot, -, -⟩
    · exact hsame
    · exact absurd hgot (by simp)
  · rcases recv_cases hstep with ⟨-, rfl⟩ | ⟨k, rfl, -, hnet, hother⟩
    · exact ⟨rfl, fun _ _ => rfl⟩
    · exact ⟨hnet, fun j hj => hother j fun heq => hj (by rw [heq])⟩

/-- A datagram of three bytes to port 53. -/
def smallDatagram : Mem := fun o => [0, 99, 0, 53, 0, 11, 0, 0, 7, 8, 9].getD o 0

def lanRecv : RecvNet where
  net := lanHost 2 1
  arrays _ := { recvBuf := fun _ => 0, recvLen := 0, fits := Nat.zero_le _ }

/-- It arrives at socket 0, and two bytes are read. -/
theorem recv_buffers_fifo_lan :
    ∃ s, Executes RecvNet.step lanRecv
        [.deliver smallDatagram 0 11 1 (some (0, [7, 8, 9])), .recv 0 2 [7, 8] 2] s ∧
      [7, 8, 9] = [7, 8] ++ (s.arrays 0).waiting := by
  have hgot : (udpHandleArray lanRecv smallDatagram 0 11 1).2 = some (0, [7, 8, 9]) := by
    decide +kernel
  have hout : (brightsRecvArray (udpHandleArray lanRecv smallDatagram 0 11 1).1 0 2).2 =
      ([7, 8], 2) := by
    decide +kernel
  have hrun : Executes RecvNet.step lanRecv
      [.deliver smallDatagram 0 11 1 (some (0, [7, 8, 9])), .recv 0 2 [7, 8] 2] _ :=
    .cons (Prod.ext rfl hgot) (.cons (Prod.ext rfl hout) (.nil _))
  obtain ⟨-, -, haccount, -⟩ := recv_buffers_fifo hrun 0
  exact ⟨_, hrun, haccount⟩

end BrightS
