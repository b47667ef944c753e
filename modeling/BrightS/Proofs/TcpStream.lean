/-
The bytes that a stream socket takes from its peer.

`Inbox` follows one socket through a run: what `tcp_handle` has appended to its buffer and
what `brights_recv` has taken out of it.  The network hands over segments of the peer's
stream in any order, any number of times, or not at all.

The branch of `tcp_handle` that takes data looks at the sequence number only to acknowledge
it.  So what is appended is in order as far as the network delivers it in order; `InSequence`
is the test that is missing.
-/
import BrightS.Proofs.TcpLink

namespace BrightS

open Bytes Runs

/-! ### What a segment appends -/

theorem ipSend_sockets {net net' : Net} {dstIp : Ip} {protocol : Byte} {data : List Byte}
    {ret : Int} (hcall : ipSend net dstIp protocol data = some (net', ret)) :
    net'.sockets = net.sockets := by
  unfold ipSend at hcall
  split at hcall
  · rw [← (Prod.mk.inj (Option.some.inj hcall)).1]
  · split at hcall
    · exact absurd hcall (by simp)
    · dsimp only at hcall
      split at hcall
      · rw [← (Prod.mk.inj (Option.some.inj hcall)).1]
        exact arpRequest_sockets net dstIp
      · rw [← (Prod.mk.inj (Option.some.inj hcall)).1]
        exact netSend_sockets net _

theorem tcpReply_sockets {net net' : Net} {tcp : TcpHdr} {sock : Socket} {flags : Byte} {srcIp : Ip}
    (hcall : tcpReply net tcp sock flags srcIp = some net') : net'.sockets = net.sockets := by
  obtain ⟨r, hsend, hr⟩ := Option.map_eq_some_iff.mp hcall
  rw [← hr]
  exact ipSend_sockets hsend

/-- The bytes that a segment has for a socket. -/
def tcpAdded (sock : Socket) (tcp : TcpHdr) (m : Mem) (data len : Nat) : List Byte :=
  if tcp.isData then
    slice m (data + tcp.dataStart) (min (sub32 len tcp.dataStart) sock.recv.avail)
  else []

/-- The buffer of socket `j` has got these bytes. -/
def Gains (net net' : Net) (j : Nat) (bytes : List Byte) : Prop :=
  (net'.sockets j).recv.bytes = (net.sockets j).recv.bytes ++ bytes

theorem gains_nil (net : Net) (j : Nat) : Gains net net j [] := (List.append_nil _).symm

theorem gains_reply {net net' : Net} {i : Nat} {sock : Socket} {tcp : TcpHdr} {flags : Byte}
    {srcIp : Ip} {bytes : List Byte}
    (hcall : tcpReply (net.setSocket i sock) tcp sock flags srcIp = some net')
    (hbytes : sock.recv.bytes = (net.sockets i).recv.bytes ++ bytes) (j : Nat) :
    Gains net net' j (if j = i then bytes else []) := by
  unfold Gains
  rw [tcpReply_sockets hcall]
  by_cases hj : j = i
  · simp [Net.setSocket, hj, hbytes]
  · simp [Net.setSocket, hj]

/-- A segment appends its bytes to its own socket, and nothing to another. -/
theorem tcpSegment_gains {net net' : Net} {i : Nat} {tcp : TcpHdr} {m : Mem} {data len : Nat}
    {srcIp : Ip} (hcall : tcpSegment net i tcp m data len srcIp = some net') (j : Nat) :
    Gains net net' j (if j = i then tcpAdded (net.sockets i) tcp m data len else []) := by
  unfold tcpSegment at hcall
  dsimp only at hcall
  unfold tcpAdded
  cases hsyn : tcp.has tcpSyn with
  | true =>
      rw [hsyn, if_pos rfl] at hcall
      have hnone : tcp.isData = false := by simp [TcpHdr.isData, hsyn]
      rw [hnone]
      exact gains_reply hcall (List.append_nil _).symm j
  | false =>
      rw [hsyn, if_neg (by simp)] at hcall
      cases hack : tcp.has tcpAck with
      | true =>
          rw [hack, if_pos rfl] at hcall
          have hnone : tcp.isData = false := by simp [TcpHdr.isData, hack]
          rw [hnone]
          simp only [Bool.false_eq_true, if_false, ite_self]
          split at hcall
          · rw [← Option.some.inj hcall]
            unfold Gains
            by_cases hj : j = i
            · simp [Net.setSocket, hj]
            · simp [Net.setSocket, hj]
          · rw [← Option.some.inj hcall]
            exact gains_nil net j
      | false =>
          rw [hack, if_neg (by simp)] at hcall
          cases hfin : tcp.has tcpFin with
          | true =>
              rw [hfin, if_pos rfl] at hcall
              have hnone : tcp.isData = false := by simp [TcpHdr.isData, hfin]
              rw [hnone]
              exact gains_reply hcall (List.append_nil _).symm j
          | false =>
              rw [hfin, if_neg (by simp)] at hcall
              cases hpsh : tcp.has tcpPsh with
              | false =>
                  rw [hpsh, if_neg (by simp)] at hcall
                  have hnone : tcp.isData = false := by simp [TcpHdr.isData, hpsh]
                  rw [hnone, ← Option.some.inj hcall]
                  simp only [Bool.false_eq_true, if_false, ite_self]
                  exact gains_nil net j
              | true =>
                  rw [hpsh, if_pos (by simp)] at hcall
                  have hdata : tcp.isData = true := by simp [TcpHdr.isData, hsyn, hack, hfin, hpsh]
                  rw [hdata, if_pos rfl]
                  split at hcall
                  · refine gains_reply hcall (push_take ?_) j
                    rw [length_slice]
                    exact min_le_right _ _
                  · rename_i hnone
                    rw [← Option.some.inj hcall, Nat.eq_zero_of_not_pos hnone]
                    simp only [slice, List.range_zero, List.map_nil, ite_self]
                    exact gains_nil net j

/-! ### Runs of one socket -/

/-- The peer: its address, the number of its first byte, and what it sends. -/
structure Peer where
  ip : Ip
  isn : BitVec 32
  stream : List Byte

/-- A host, the bytes that segments have appended to the socket, and those that were taken out. -/
structure Inbox where
  net : Net
  appended : List Byte
  returned : List Byte

/-- A segment arrives that begins at `off` in the stream, or bytes are taken out. -/
inductive InboxCall where
  | segment (off : Nat) (m : Mem) (data len : Nat)
  | recv (sockfd : Int) (len : Nat)

def Inbox.next (p : Peer) (j : Nat) (st : Inbox) : InboxCall → Option Inbox
  | .segment _ m data len =>
      (tcpHandle st.net m data len p.ip).map fun net =>
        { st with
          net := net
          appended := st.appended ++
            (net.sockets j).recv.bytes.drop (st.net.sockets j).recv.bytes.length }
  | .recv sockfd len =>
      let r := brightsRecv st.net sockfd len
      some { st with
        net := r.1
        returned := if openSocket st.net sockfd = some j then st.returned ++ r.2.1 else st.returned }

/-- A segment of the peer with the bytes of its stream from `off` on. -/
structure PeerSegment (p : Peer) (off : Nat) (m : Mem) (data len : Nat) : Prop where
  seq : swap32 (tcpHdrAt m data).seq = p.isn + BitVec.ofNat 32 off
  header : (tcpHdrAt m data).dataStart ≤ len
  len_lt : len < 2 ^ 32
  inside : off + (len - (tcpHdrAt m data).dataStart) ≤ p.stream.length
  payload : Holds m (data + (tcpHdrAt m data).dataStart)
    ((p.stream.drop off).take (len - (tcpHdrAt m data).dataStart))

/-- The network only hands over what the peer has sent. -/
def InboxCall.Genuine (p : Peer) : InboxCall → Prop
  | .segment off m data len => PeerSegment p off m data len
  | .recv _ _ => True

def Inbox.step (p : Peer) (j : Nat) (st : Inbox) (c : InboxCall) (st' : Inbox) : Prop :=
  c.Genuine p ∧ st.next p j c = some st'

/-- A segment that has bytes for the socket, and finds room, begins where the last one that was
taken has ended. -/
def InSequence (p : Peer) (j : Nat) (st : Inbox) : InboxCall → Prop
  | .segment off m data len =>
      (tcpHdrAt m data).isData = true →
      tcpSocket st.net p.ip (swap16 (tcpHdrAt m data).srcPort)
        (swap16 (tcpHdrAt m data).dstPort) = some j →
      (tcpHdrAt m data).dataStart < len → 0 < (st.net.sockets j).recv.avail →
      off = st.appended.length
  | .recv _ _ => True

/-- What was appended is the beginning of the stream, and is in the buffer or was taken out. -/
structure InOrder (p : Peer) (j : Nat) (first : List Byte) (st : Inbox) : Prop where
  inStream : st.appended <+: p.stream
  kept : st.returned ++ (st.net.sockets j).recv.bytes = first ++ st.appended

theorem InOrder.gains {p : Peer} {j : Nat} {first bytes : List Byte} {st : Inbox} {net : Net}
    (h : InOrder p j first st) (hgains : Gains st.net net j bytes)
    (hstream : st.appended ++ bytes <+: p.stream) :
    InOrder p j first { st with
      net := net
      appended := st.appended ++
        (net.sockets j).recv.bytes.drop (st.net.sockets j).recv.bytes.length } := by
  have hnew : (net.sockets j).recv.bytes.drop (st.net.sockets j).recv.bytes.length = bytes := by
    rw [hgains, List.drop_left]
  constructor
  · dsimp only
    rw [hnew]
    exact hstream
  · dsimp only
    rw [hnew, hgains, ← List.append_assoc, h.kept, List.append_assoc]

theorem sub32_eq {a b : Nat} (hle : b ≤ a) (hlt : a < 2 ^ 32) : sub32 a b = a - b := by
  unfold sub32
  omega

/-- The bytes of a segment of the peer are those of its stream. -/
theorem PeerSegment.added {p : Peer} {off : Nat} {m : Mem} {data len : Nat}
    (h : PeerSegment p off m data len) (sock : Socket) :
    tcpAdded sock (tcpHdrAt m data) m data len <+: p.stream.drop off := by
  unfold tcpAdded
  split
  · rw [sub32_eq h.header h.len_lt]
    have hpayload := slice_eq_iff.mpr h.payload
    have hlen : ((p.stream.drop off).take (len - (tcpHdrAt m data).dataStart)).length =
        len - (tcpHdrAt m data).dataStart := by
      have hinside := h.inside
      rw [List.length_take, List.length_drop]
      omega
    rw [hlen] at hpayload
    have htake : slice m (data + (tcpHdrAt m data).dataStart)
        (min (len - (tcpHdrAt m data).dataStart) sock.recv.avail) =
        (slice m (data + (tcpHdrAt m data).dataStart)
          (len - (tcpHdrAt m data).dataStart)).take sock.recv.avail := by
      unfold slice
      rw [← List.map_take, List.take_range, min_comm]
    rw [htake, hpayload]
    rw [List.take_take]
    exact List.take_prefix _ _
  · exact List.nil_prefix

theorem tcpAdded_eq_nil {sock : Socket} {tcp : TcpHdr} {m : Mem} {data len : Nat}
    (hstart : tcp.dataStart ≤ len) (hlen : len < 2 ^ 32)
    (hnone : ¬ (tcp.isData = true ∧ tcp.dataStart < len ∧ 0 < sock.recv.avail)) :
    tcpAdded sock tcp m data len = [] := by
  unfold tcpAdded
  split
  · rename_i hdata
    rw [sub32_eq hstart hlen]
    have hzero : min (len - tcp.dataStart) sock.recv.avail = 0 := by
      by_cases hlt : tcp.dataStart < len
      · have hfull : ¬ 0 < sock.recv.avail := fun hroom => hnone ⟨hdata, hlt, hroom⟩
        omega
      · omega
    rw [hzero]
    rfl
  · rfl

theorem InOrder.segment {p : Peer} {j : Nat} {first : List Byte} {st st' : Inbox} {off : Nat}
    {m : Mem} {data len : Nat} (h : InOrder p j first st)
    (hgenuine : PeerSegment p off m data len)
    (hseq : InSequence p j st (.segment off m data len))
    (hnext : st.next p j (.segment off m data len) = some st') : InOrder p j first st' := by
  obtain ⟨net, hcall, rfl⟩ := Option.map_eq_some_iff.mp hnext
  have hsame : st.appended ++ [] <+: p.stream := by
    rw [List.append_nil]
    exact h.inStream
  unfold tcpHandle at hcall
  split at hcall
  · rw [← Option.some.inj hcall]
    exact h.gains (gains_nil st.net j) hsame
  · dsimp only at hcall
    split at hcall
    · rw [← Option.some.inj hcall]
      exact h.gains (gains_nil st.net j) hsame
    · rename_i i hsock
      refine h.gains (tcpSegment_gains hcall j) ?_
      split
      · rename_i hj
        rw [← hj] at hsock ⊢
        by_cases htaken : (tcpHdrAt m data).isData = true ∧ (tcpHdrAt m data).dataStart < len ∧
            0 < (st.net.sockets j).recv.avail
        · -- The bytes are those that follow the ones taken so far.
          have hoff := hseq htaken.1 hsock htaken.2.1 htaken.2.2
          obtain ⟨rest, hrest⟩ := h.inStream
          have hadded := hgenuine.added (st.net.sockets j)
          rw [hoff, ← hrest, List.drop_left] at hadded
          rw [← hrest]
          exact (List.prefix_append_right_inj st.appended).mpr hadded
        · rw [tcpAdded_eq_nil hgenuine.header hgenuine.len_lt htaken]
          exact hsame
      · exact hsame

theorem InOrder.recv {p : Peer} {j : Nat} {first : List Byte} {st st' : Inbox} {sockfd : Int}
    {len : Nat} (h : InOrder p j first st)
    (hnext : st.next p j (.recv sockfd len) = some st') : InOrder p j first st' := by
  rw [← Option.some.inj hnext]
  refine ⟨h.inStream, ?_⟩
  rw [← h.kept]
  unfold brightsRecv
  cases hopen : openSocket st.net sockfd with
  | none => simp
  | some i =>
      dsimp only
      by_cases hi : i = j
      · subst hi
        simp [Net.setSocket, RecvBuf.drop, List.append_assoc]
      · simp [Net.setSocket, hi, Ne.symm hi]

/--
**What is appended is in order where the network delivers in order.**  In every run whose
segments are all in sequence, the bytes that `tcp_handle` has appended are the beginning of the
stream, and they are what `brights_recv` has returned or will return.
-/
theorem tcp_in_order (p : Peer) (j : Nat) (net : Net) {calls : List InboxCall} {st : Inbox}
    (hrun : Executes (Guarded (InSequence p j) (Inbox.step p j)) ⟨net, [], []⟩ calls st) :
    st.appended <+: p.stream ∧
      st.returned ++ (st.net.sockets j).recv.bytes =
        (net.sockets j).recv.bytes ++ st.appended := by
  have hstep : ∀ st c st', InOrder p j (net.sockets j).recv.bytes st →
      Guarded (InSequence p j) (Inbox.step p j) st c st' →
      InOrder p j (net.sockets j).recv.bytes st' := by
    intro st c st' h ⟨hseq, hgenuine, hnext⟩
    cases c with
    | segment off m data len => exact h.segment hgenuine hseq hnext
    | recv sockfd len => exact h.recv hnext
  have hfirst : InOrder p j (net.sockets j).recv.bytes ⟨net, [], []⟩ :=
    ⟨List.nil_prefix, (List.append_nil _).symm⟩
  have h := hrun.invariant hstep hfirst
  exact ⟨h.inStream, h.kept⟩

/-- The host that socket 1 of `lanHost 2 1` is connected to, with a stream of three bytes. -/
def lanPeer : Peer := { ip := 1, isn := 1000, stream := [7, 8, 9] }

/-- The segment with the whole stream. -/
def lanSegment : Mem :=
  onto (({ socketHeader ((lanHost 1 2).sockets 1) tcpPsh with ack := 0 } : TcpHdr).bytes ++
    [7, 8, 9]) fun _ => 0

theorem lanSegment_genuine : PeerSegment lanPeer 0 lanSegment 0 23 := by
  refine ⟨by decide +kernel, by decide +kernel, by decide, by decide +kernel, ?_⟩
  rw [← slice_eq_iff]
  decide +kernel

theorem tcp_in_order_lan :
    ∃ st, Executes (Guarded (InSequence lanPeer 1) (Inbox.step lanPeer 1))
        ⟨lanHost 2 1, [], []⟩ [.segment 0 lanSegment 0 23] st ∧
      st.appended = [7, 8, 9] ∧ st.appended <+: lanPeer.stream := by
  have hbytes : ((⟨lanHost 2 1, [], []⟩ : Inbox).next lanPeer 1 (.segment 0 lanSegment 0 23)).map
      Inbox.appended = some [7, 8, 9] := by decide +kernel
  obtain ⟨st, hnext, happended⟩ := Option.map_eq_some_iff.mp hbytes
  have hrun : Executes (Guarded (InSequence lanPeer 1) (Inbox.step lanPeer 1))
      ⟨lanHost 2 1, [], []⟩ [.segment 0 lanSegment 0 23] st :=
    .cons ⟨fun _ _ _ _ => rfl, lanSegment_genuine, hnext⟩ (.nil st)
  exact ⟨st, hrun, happended, (tcp_in_order lanPeer 1 (lanHost 2 1) hrun).1⟩

/-- The network hands over one segment twice, and its bytes are appended twice. -/
theorem tcp_segment_appended_twice :
    ∃ st, Executes (Inbox.step lanPeer 1) ⟨lanHost 2 1, [], []⟩
        [.segment 0 lanSegment 0 23, .segment 0 lanSegment 0 23] st ∧
      st.appended = [7, 8, 9, 7, 8, 9] ∧ ¬ st.appended <+: lanPeer.stream := by
  have hbytes : (((⟨lanHost 2 1, [], []⟩ : Inbox).next lanPeer 1
      (.segment 0 lanSegment 0 23)).bind fun st =>
        st.next lanPeer 1 (.segment 0 lanSegment 0 23)).map Inbox.appended =
      some [7, 8, 9, 7, 8, 9] := by decide +kernel
  obtain ⟨st, hnext, happended⟩ := Option.map_eq_some_iff.mp hbytes
  obtain ⟨mid, hmid, hlast⟩ := Option.bind_eq_some_iff.mp hnext
  refine ⟨st, .cons ⟨lanSegment_genuine, hmid⟩ (.cons ⟨lanSegment_genuine, hlast⟩ (.nil st)),
    happended, ?_⟩
  rw [happended]
  decide

end BrightS
