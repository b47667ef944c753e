/-
Which packets fit the frame buffer.

`ip_send` has no check, so what it is given decides.  All callers but one pass a header of
their own; the echo of a request passes the length that the received headers say, and the
low byte of that length counts 65536 times.  A datagram or a stream write that does not fit
is not refused either: its header goes out alone.
-/
import BrightS.Proofs.NetBounds

namespace BrightS

open Bytes

/-! ### Frames -/

/-- A frame that fits the buffer and has the length that its IP header says. -/
structure WellSized (frame : List Byte) : Prop where
  fits : frame.length ≤ netBufSize
  total : ∀ m, Holds m 0 frame → swap16 (load16 m 12) = 0x0800 →
    ethHdrSize + ipTotal m = frame.length

/-- Nothing was sent but frames of the right size. -/
def SendsWell (net net' : Net) : Prop :=
  ∃ new, net'.sent = net.sent ++ new ∧ ∀ frame ∈ new, WellSized frame

section Frames

variable {net net' net₁ : Net}

theorem SendsWell.of_sent (h : net'.sent = net.sent) : SendsWell net net' :=
  ⟨[], by rw [h, List.append_nil], fun _ hin => absurd hin (by simp)⟩

theorem netSend_well (net : Net) {frame : List Byte} (hframe : WellSized frame) :
    SendsWell net (netSend net frame) := by
  rcases netSend_cases net frame with h | h
  · exact .of_sent (by rw [h])
  · refine ⟨[frame], by rw [h], fun f hf => ?_⟩
    rw [List.mem_singleton.mp hf]
    exact hframe

theorem arpFrame_wellSized (dst src : Mac) (opcode : BitVec 16) (senderMac targetMac : Mac)
    (senderIp targetIp : Ip) :
    WellSized (ethHdr dst src 0x0608 ++ arpBytes opcode senderMac senderIp targetMac targetIp) where
  fits := by
    have hlen : (arpBytes opcode senderMac senderIp targetMac targetIp).length = arpHdrSize := by
      simp [arpBytes, arpHdrSize]
    rw [List.length_append, length_ethHdr, hlen]
    decide
  total := by
    intro m hm htype
    have hright := hm.left.right.right
    rw [Vector.length_toList, Vector.length_toList] at hright
    rw [hright.load16_eq] at htype
    exact absurd htype (by decide)

theorem ipFrame_total {dstMac srcMac : Mac} {srcIp dstIp : Ip} {protocol : Byte}
    {data : List Byte} {m : Mem}
    (hm : Holds m 0 (ipFrame dstMac srcMac srcIp dstIp protocol data)) :
    ipTotal m = (ipHdrSize + data.length) % 2 ^ 16 := by
  have hip : ipHdrAt m ethHdrSize = ipSendHdr srcIp dstIp protocol data.length := by
    apply ipHdrAt_bytes
    have hright := hm.right
    rw [length_ethHdr, Nat.zero_add] at hright
    exact hright.left
  have htotal : load16 m 16 = swap16 (BitVec.ofNat 16 (ipHdrSize + data.length)) :=
    congrArg IpHdr.totalLen hip
  rw [ipTotal, htotal, swap16_swap16, BitVec.toNat_ofNat]

theorem ipFrame_wellSized (dstMac srcMac : Mac) (srcIp dstIp : Ip) (protocol : Byte)
    {data : List Byte} (hfits : ethHdrSize + ipHdrSize + data.length ≤ netBufSize) :
    WellSized (ipFrame dstMac srcMac srcIp dstIp protocol data) where
  fits := by
    rw [length_ipFrame]
    omega
  total := by
    intro m hm _
    have hbuf : netBufSize = 1518 := rfl
    rw [ipFrame_total hm, length_ipFrame, Nat.mod_eq_of_lt (by omega)]

theorem arpRequest_well (targetIp : Ip) : SendsWell net (arpRequest net targetIp) := by
  unfold arpRequest
  cases net.netifs with
  | nil => exact .of_sent rfl
  | cons iface rest => exact netSend_well net (arpFrame_wellSized ..)

theorem arpCacheAdd_sent (ip : Ip) (mac : Mac) : (arpCacheAdd net ip mac).sent = net.sent := by
  unfold arpCacheAdd
  cases (List.range arpCacheSize).find? fun i => !(net.arpCache i).valid with
  | none => rfl
  | some i => rfl

theorem arpHandle_well (m : Mem) (len : Nat) : SendsWell net (arpHandle net m len) := by
  unfold arpHandle
  split_ifs
  · exact .of_sent rfl
  · cases net.netifs with
    | nil => exact .of_sent rfl
    | cons iface rest =>
        dsimp only
        split_ifs
        · obtain ⟨new, hnew, hwell⟩ := netSend_well
            (arpCacheAdd net (load32 m (ethHdrSize + 14)) (macAt m (ethHdrSize + 8)))
            (arpFrame_wellSized (macAt m (ethHdrSize + 8)) iface.mac 0x0200 iface.mac
              (macAt m (ethHdrSize + 8)) iface.ipAddr (load32 m (ethHdrSize + 14)))
          exact ⟨new, by rw [hnew, arpCacheAdd_sent], hwell⟩
        · exact .of_sent (arpCacheAdd_sent ..)

end Frames

/-! ### What `ip_send` is given -/

/-- A range of the frame buffer. -/
structure FrameRange where
  start : Nat
  count : Nat

/-- What `ip_send` writes to its buffer: the IP header and the payload, and the Ethernet header
if the destination is known. -/
def ipSendWrites (net : Net) (dstIp : Ip) (len : Nat) : List FrameRange :=
  if net.netifs = [] then []
  else [⟨ethHdrSize, ipHdrSize⟩, ⟨ethHdrSize + ipHdrSize, len⟩] ++
    if (arpResolve net dstIp).isSome then [⟨0, ethHdrSize⟩] else []

/-- The destination has a known place. -/
def Sendable (net : Net) (dstIp : Ip) : Prop :=
  net.netifs ≠ [] ∧ (arpResolve net dstIp).isSome = true

/-- A call that failed and changed no socket. -/
def Refused (net : Net) (r : Option (Net × Int)) : Prop :=
  ∃ net', r = some (net', -1) ∧ net'.sockets = net.sockets

/-- Payload that is sent is sent whole, in a packet with the right length; payload that does not
fit is refused, and nothing is written behind the buffer. -/
structure IpSendFits (net : Net) (dstIp : Ip) (protocol : Byte) (data : List Byte) : Prop where
  inside : ∀ w ∈ ipSendWrites net dstIp data.length, w.start + w.count ≤ netBufSize
  refused : netBufSize < ethHdrSize + ipHdrSize + data.length →
    Refused net (ipSend net dstIp protocol data)
  whole : ∀ net', ipSend net dstIp protocol data = some (net', 0) → ∃ frame,
    net' = netSend net frame ∧ WellSized frame ∧
      ∀ m, Holds m 0 frame → Holds m (ethHdrSize + ipHdrSize) data ∧
        ipTotal m = ipHdrSize + data.length

section IpSend

variable {net : Net} {dstIp : Ip} {protocol : Byte} {data : List Byte}

/-- What fits is sent, or its destination asked for. -/
theorem ipSend_fits (net : Net) (dstIp : Ip) (protocol : Byte)
    (hfits : ethHdrSize + ipHdrSize + data.length ≤ netBufSize) :
    (¬ Sendable net dstIp ∧ ∃ net', ipSend net dstIp protocol data = some (net', -1) ∧
      SendsWell net net' ∧ net'.sockets = net.sockets) ∨
    (Sendable net dstIp ∧ ∃ dstMac srcMac srcIp, ipSend net dstIp protocol data =
      some (netSend net (ipFrame dstMac srcMac srcIp dstIp protocol data), 0)) := by
  unfold ipSend Sendable
  cases hifs : net.netifs with
  | nil => exact .inl ⟨fun h => h.1 rfl, net, rfl, .of_sent rfl, rfl⟩
  | cons iface rest =>
      dsimp only
      rw [if_neg (by omega)]
      cases arpResolve net dstIp with
      | none =>
          exact .inl ⟨fun h => absurd h.2 (by simp), _, rfl, arpRequest_well dstIp,
            arpRequest_sockets net dstIp⟩
      | some dstMac => exact .inr ⟨⟨by simp, rfl⟩, dstMac, iface.mac, iface.ipAddr, rfl⟩

theorem ipSend_none_iff : ipSend net dstIp protocol data = none ↔
    net.netifs ≠ [] ∧ netBufSize < ethHdrSize + ipHdrSize + data.length := by
  by_cases hfits : ethHdrSize + ipHdrSize + data.length ≤ netBufSize
  · refine iff_of_false (fun h => ?_) fun h => by omega
    rcases ipSend_fits net dstIp protocol hfits with ⟨-, net', hsend, -⟩ | ⟨-, _, _, _, hsend⟩
    · rw [hsend] at h
      exact absurd h (by simp)
    · rw [hsend] at h
      exact absurd h (by simp)
  · unfold ipSend
    cases net.netifs with
    | nil => exact iff_of_false (by simp) fun h => h.1 rfl
    | cons iface rest =>
        dsimp only
        rw [if_pos (by omega)]
        exact iff_of_true rfl ⟨by simp, by omega⟩

/-- A call is undefined exactly if it writes behind its buffer. -/
theorem ipSend_none_iff_outside : ipSend net dstIp protocol data = none ↔
    ∃ w ∈ ipSendWrites net dstIp data.length, netBufSize < w.start + w.count := by
  rw [ipSend_none_iff]
  unfold ipSendWrites
  constructor
  · rintro ⟨hifs, hlong⟩
    rw [if_neg hifs]
    exact ⟨⟨ethHdrSize + ipHdrSize, data.length⟩, by simp, hlong⟩
  · rintro ⟨w, hw, hlong⟩
    have hbuf : netBufSize = 1518 ∧ ethHdrSize = 14 ∧ ipHdrSize = 20 := ⟨rfl, rfl, rfl⟩
    split_ifs at hw with hifs hmac
    · exact absurd hw (by simp)
    · simp only [List.mem_append, List.mem_cons, List.not_mem_nil, or_false] at hw
      rcases hw with (rfl | rfl) | rfl
      · dsimp only at hlong
        omega
      · exact ⟨hifs, hlong⟩
      · dsimp only at hlong
        omega
    · simp only [List.mem_append, List.mem_cons, List.not_mem_nil, or_false] at hw
      rcases hw with rfl | rfl
      · dsimp only at hlong
        omega
      · exact ⟨hifs, hlong⟩

theorem ipSend_outside {w : FrameRange} (hw : w ∈ ipSendWrites net dstIp data.length)
    (hout : ¬ w.start + w.count ≤ netBufSize) :
    net.netifs ≠ [] ∧ netBufSize < ethHdrSize + ipHdrSize + data.length := by
  have hnone : ipSend net dstIp 0 data = none :=
    ipSend_none_iff_outside.mpr ⟨w, hw, Nat.not_le.mp hout⟩
  exact ipSend_none_iff.mp hnone

theorem ipSendFits_iff : IpSendFits net dstIp protocol data ↔
    net.netifs = [] ∨ ethHdrSize + ipHdrSize + data.length ≤ netBufSize := by
  constructor
  · intro h
    by_contra hnot
    rw [not_or] at hnot
    obtain ⟨net', hsend, -⟩ := h.refused (by omega)
    rw [ipSend_none_iff.mpr ⟨hnot.1, by omega⟩] at hsend
    exact absurd hsend (by simp)
  · rintro (hifs | hfits)
    · have hsend : ipSend net dstIp protocol data = some (net, -1) := by
        unfold ipSend
        rw [hifs]
      refine ⟨fun w hw => ?_, fun _ => ⟨net, hsend, rfl⟩, fun net' h => ?_⟩
      · by_contra hout
        exact (ipSend_outside hw hout).1 hifs
      · rw [hsend] at h
        exact absurd (congrArg Prod.snd (Option.some.inj h)) (by simp)
    · refine ⟨fun w hw => ?_, fun hlong => by omega, fun net' h => ?_⟩
      · by_contra hout
        exact absurd (ipSend_outside hw hout).2 (Nat.not_lt.mpr hfits)
      · rcases ipSend_fits net dstIp protocol hfits with ⟨-, _, hsend, -⟩ | ⟨-, _, _, _, hsend⟩
        · rw [hsend] at h
          exact absurd (congrArg Prod.snd (Option.some.inj h)) (by simp)
        · rw [hsend] at h
          refine ⟨_, (congrArg Prod.fst (Option.some.inj h)).symm,
            ipFrame_wellSized _ _ _ _ _ hfits, fun m hm => ⟨ipFrame_data hm, ?_⟩⟩
          have hbuf : netBufSize = 1518 := rfl
          rw [ipFrame_total hm, Nat.mod_eq_of_lt (by omega)]

end IpSend

/-! ### The callers -/

/-- The calls that reach `ip_send`. -/
inductive NetCall where
  | recv (m : Mem) (len : Nat)
  | echoRequest (dstIp : Ip)
  | udpSend (dstIp : Ip) (srcPort dstPort : Port) (data : List Byte)
  | tcpConnect (dstIp : Ip) (dstPort : Port)
  | connect (sockfd : Int) (addr : Ip) (port : Port)
  | send (sockfd : Int) (buf : List Byte)
  | close (sockfd : Int)

def NetCall.run (net : Net) : NetCall → Option (Net × Int)
  | .recv m len => (netRecv net m len).map fun net' => (net', 0)
  | .echoRequest dstIp => icmpEchoRequest net dstIp
  | .udpSend dstIp srcPort dstPort data => BrightS.udpSend net dstIp srcPort dstPort data
  | .tcpConnect dstIp dstPort => BrightS.tcpConnect net dstIp dstPort
  | .connect sockfd addr port => brightsConnect net sockfd addr port
  | .send sockfd buf => brightsSend net sockfd buf
  | .close sockfd => brightsClose net sockfd

/-- The packet that a datagram or a stream write is to make, without its IP header. -/
def NetCall.packetLen (net : Net) : NetCall → Nat
  | .udpSend _ _ _ data => udpHdrSize + data.length
  | .send sockfd buf =>
      match openSocket net sockfd with
      | none => 0
      | some i =>
          if (net.sockets i).type = 2 then udpHdrSize + buf.length
          else if (net.sockets i).type = 1 then tcpHdrSize + buf.length
          else 0
  | _ => 0

/-- The call gets through to a destination that is known. -/
def NetCall.GetsThrough (net : Net) : NetCall → Prop
  | .udpSend dstIp _ _ _ => Sendable net dstIp
  | .send sockfd _ => ∃ i, openSocket net sockfd = some i ∧
      Sendable net (net.sockets i).remoteIp ∧
      ((net.sockets i).type = 1 → (net.sockets i).tcpState = .established)
  | _ => False

/-- An echo request for us, the length of whose payload, computed from its headers, is more than
fits a frame. -/
def NetCall.EchoesTooMuch (net : Net) : NetCall → Prop
  | .recv m len =>
      swap16 (load16 m 12) = 0x0800 ∧ ForUs net m len ∧ m 23 = ipProtoIcmp ∧
        m (14 + ipIhl m) = 8 ∧
        ¬ (ipTotal m % 256 = 0 ∧ ipIhl m ≤ ipTotal m ∧ ipTotal m - ipIhl m ≤ 1484)
  | _ => False

/-- The call stays inside its frame buffers and sends frames of the right size; a packet that is
too long for a frame is refused. -/
structure PacketsFit (net : Net) (c : NetCall) : Prop where
  inside : ∃ r, c.run net = some r ∧ SendsWell net r.1
  refused : netBufSize < ethHdrSize + ipHdrSize + c.packetLen net → Refused net (c.run net)

section Callers

variable {net net₁ : Net}

/-- What runs to its end and sends frames of the right size. -/
def RunsWell (net : Net) (r : Option Net) : Prop := ∃ net', r = some net' ∧ SendsWell net net'

theorem RunsWell.refl (net : Net) : RunsWell net (some net) := ⟨net, rfl, .of_sent rfl⟩

/-- Only what was sent before matters. -/
theorem RunsWell.of_sent (hsent : net₁.sent = net.sent) {r : Option Net} (h : RunsWell net₁ r) :
    RunsWell net r := by
  obtain ⟨net', hr, new, hnew, hwell⟩ := h
  exact ⟨net', hr, new, by rw [hnew, hsent], hwell⟩

theorem ipSend_runsWell (net : Net) (dstIp : Ip) (protocol : Byte) (data : List Byte)
    (hfits : ethHdrSize + ipHdrSize + data.length ≤ netBufSize) :
    ∃ r, ipSend net dstIp protocol data = some r ∧ SendsWell net r.1 := by
  rcases ipSend_fits net dstIp protocol hfits with
    ⟨-, net', hsend, hwell, -⟩ | ⟨-, _, _, _, hsend⟩
  · exact ⟨_, hsend, hwell⟩
  · exact ⟨_, hsend, netSend_well net (ipFrame_wellSized _ _ _ _ _ hfits)⟩

/-- The header of a protocol fits. -/
theorem header_fits : ethHdrSize + ipHdrSize + tcpHdrSize ≤ netBufSize ∧
    ethHdrSize + ipHdrSize + udpHdrSize ≤ netBufSize := by decide

theorem tcpSend_well (net : Net) (dstIp : Ip) (tcp : TcpHdr) :
    ∃ r, ipSend net dstIp ipProtoTcp tcp.bytes = some r ∧ SendsWell net r.1 :=
  ipSend_runsWell net dstIp ipProtoTcp tcp.bytes header_fits.1

theorem tcpReply_runsWell (net : Net) (tcp : TcpHdr) (sock : Socket) (flags : Byte) (srcIp : Ip) :
    RunsWell net (tcpReply net tcp sock flags srcIp) := by
  obtain ⟨r, hsend, hwell⟩ := tcpSend_well net srcIp
    (tcpHeader tcp.dstPort tcp.srcPort sock flags)
  exact ⟨r.1, by rw [tcpReply, hsend]; rfl, hwell⟩

theorem tcpSegment_runsWell (net : Net) (i : Nat) (tcp : TcpHdr) (m : Mem) (data len : Nat)
    (srcIp : Ip) : RunsWell net (tcpSegment net i tcp m data len srcIp) := by
  have hsame : ∀ sock, (net.setSocket i sock).sent = net.sent := fun _ => rfl
  unfold tcpSegment
  dsimp only
  split_ifs
  · exact (tcpReply_runsWell ..).of_sent (hsame _)
  · exact (RunsWell.refl _).of_sent (hsame _)
  · exact .refl net
  · exact (tcpReply_runsWell ..).of_sent (hsame _)
  · exact (tcpReply_runsWell ..).of_sent (hsame _)
  · exact .refl net
  · exact .refl net

theorem tcpHandle_runsWell (net : Net) (m : Mem) (data len : Nat) (srcIp : Ip) :
    RunsWell net (tcpHandle net m data len srcIp) := by
  unfold tcpHandle
  split_ifs
  · exact .refl net
  · dsimp only
    cases tcpSocket net srcIp (swap16 (tcpHdrAt m data).srcPort)
        (swap16 (tcpHdrAt m data).dstPort) with
    | none => exact .refl net
    | some i => exact tcpSegment_runsWell ..

theorem udpHandle_sent (m : Mem) (data len : Nat) (srcIp : Ip) :
    (udpHandle net m data len srcIp).sent = net.sent := by
  unfold udpHandle
  split_ifs
  · rfl
  · dsimp only
    cases udpSocket net (swap16 (udpHdrAt m data).dstPort) with
    | none => rfl
    | some i =>
        dsimp only
        split_ifs
        · rfl
        · rfl

/-- The echo has the length of the request. -/
theorem length_icmpReply (code : Byte) (m : Mem) (data : Nat) {len : Nat} (hlen : icmpHdrSize ≤ len) :
    (icmpReply code (slice m data (len - 4))).length = len := by
  have hsize : icmpHdrSize = 8 := rfl
  simp [icmpReply]
  omega

theorem icmpHandle_runsWell_iff (m : Mem) (data len : Nat) (srcIp : Ip) :
    RunsWell net (icmpHandle net m data len srcIp) ↔
      ¬ (net.netifs ≠ [] ∧ icmpHdrSize ≤ len ∧ m data = 8 ∧
        netBufSize < ethHdrSize + ipHdrSize + len) := by
  unfold icmpHandle
  by_cases hlen : len < icmpHdrSize
  · rw [if_pos hlen]
    exact iff_of_true (.refl net) fun h => by omega
  rw [if_neg hlen]
  by_cases htype : m data = 8
  · rw [if_pos htype]
    have hreply := length_icmpReply (m (data + 1)) m (data + 4) (Nat.not_lt.mp hlen)
    constructor
    · rintro ⟨net', hrun, -⟩ ⟨hifs, -, -, hlong⟩
      rw [ipSend_none_iff.mpr ⟨hifs, by rw [hreply]; exact hlong⟩] at hrun
      exact absurd hrun (by simp)
    · intro hfits
      by_cases hifs : net.netifs = []
      · refine ⟨net, ?_, .of_sent rfl⟩
        unfold ipSend
        rw [hifs]
        rfl
      · have hshort : ¬ netBufSize < ethHdrSize + ipHdrSize + len := fun hlong =>
          hfits ⟨hifs, Nat.not_lt.mp hlen, htype, hlong⟩
        obtain ⟨r, hsend, hwell⟩ := ipSend_runsWell net srcIp ipProtoIcmp _
          (by rw [hreply]; exact Nat.not_lt.mp hshort)
        exact ⟨r.1, by rw [hsend]; rfl, hwell⟩
  · rw [if_neg htype]
    exact iff_of_true (.refl net) fun h => htype h.2.2.1

/-- The payload of an echo request fits a frame if it has the length that the header says, and
that is not too much. -/
theorem wirePayload_fits_iff {m : Mem} :
    netBufSize < ethHdrSize + ipHdrSize + (wirePayload m).len ↔
      ¬ (ipTotal m % 256 = 0 ∧ ipIhl m ≤ ipTotal m ∧ ipTotal m - ipIhl m ≤ 1484) := by
  have hbuf : netBufSize = 1518 ∧ ethHdrSize = 14 ∧ ipHdrSize = 20 := ⟨rfl, rfl, rfl⟩
  have hihl := ipIhl_le m
  have htotal := ipTotal_lt m
  have hlow := Nat.mod_lt (ipTotal m) (show 0 < 256 by decide)
  unfold wirePayload sub32
  dsimp only
  by_cases hmultiple : ipTotal m % 256 = 0
  · rw [hmultiple]
    omega
  · -- The low byte counts 65536 times, and the header is shorter than that.
    have hwide : 65536 * (ipTotal m % 256) + ipTotal m + (2 ^ 32 - ipIhl m) =
        2 ^ 32 + (65536 * (ipTotal m % 256) + ipTotal m - ipIhl m) := by omega
    rw [hwide, Nat.add_mod_left, Nat.mod_eq_of_lt (by omega)]
    omega

theorem ipHandle_runsWell_iff (m : Mem) (len : Nat) :
    RunsWell net (ipHandle net m len) ↔
      ¬ (ForUs net m len ∧ m 23 = ipProtoIcmp ∧ m (14 + ipIhl m) = 8 ∧
        ¬ (ipTotal m % 256 = 0 ∧ ipIhl m ≤ ipTotal m ∧ ipTotal m - ipIhl m ≤ 1484)) := by
  by_cases hus : ForUs net m len
  · obtain ⟨haccept, hproto⟩ := forUs_iff.mp hus
    have hicmp : (wirePayload m).protocol = m 23 := rfl
    unfold ipHandle
    rw [haccept]
    dsimp only
    rw [hicmp]
    by_cases h1 : m 23 = ipProtoIcmp
    · rw [if_pos h1, icmpHandle_runsWell_iff, not_iff_not]
      have hfirst : net.netifs ≠ [] := by
        obtain ⟨iface, hhead, -⟩ := hus.2.1
        intro hnil
        rw [hnil] at hhead
        exact absurd hhead (by simp)
      have hbuf : netBufSize = 1518 ∧ ethHdrSize = 14 ∧ ipHdrSize = 20 ∧ icmpHdrSize = 8 :=
        ⟨rfl, rfl, rfl, rfl⟩
      rw [← wirePayload_fits_iff]
      constructor
      · rintro ⟨-, -, htype, hlong⟩
        exact ⟨hus, h1, htype, hlong⟩
      · rintro ⟨-, -, htype, hlong⟩
        exact ⟨hfirst, by omega, htype, hlong⟩
    rw [if_neg h1]
    refine iff_of_true ?_ fun h => h1 h.2.1
    split_ifs
    · exact ⟨_, rfl, .of_sent (udpHandle_sent ..)⟩
    · exact tcpHandle_runsWell ..
    · exact .refl net
  · rw [ipHandle_dropped hus]
    exact iff_of_true (.refl net) fun h => hus h.1

theorem netRecv_runsWell_iff (m : Mem) (len : Nat) :
    RunsWell net (netRecv net m len) ↔ ¬ (NetCall.recv m len).EchoesTooMuch net := by
  unfold netRecv NetCall.EchoesTooMuch
  by_cases hshort : len < ethHdrSize
  · rw [if_pos hshort]
    have heth : ethHdrSize = 14 := rfl
    refine iff_of_true (.refl net) fun h => ?_
    have := h.2.1.1
    omega
  rw [if_neg hshort]
  dsimp only
  by_cases harp : swap16 (load16 m 12) = 0x0806
  · rw [if_pos harp]
    refine iff_of_true ⟨_, rfl, arpHandle_well m len⟩ fun h => ?_
    rw [h.1] at harp
    exact absurd harp (by decide)
  rw [if_neg harp]
  by_cases hip : swap16 (load16 m 12) = 0x0800
  · rw [if_pos hip, ipHandle_runsWell_iff, not_iff_not]
    exact (and_iff_right hip).symm
  · rw [if_neg hip]
    exact iff_of_true (.refl net) fun h => hip h.1

end Callers

/-! ### Packets that are too long -/

section Long

variable {net : Net}

/-- A header goes out alone if its destination is known, and otherwise the call is refused. -/
theorem header_refused_iff (net : Net) (dstIp : Ip) (protocol : Byte) {data : List Byte}
    (hfits : ethHdrSize + ipHdrSize + data.length ≤ netBufSize) :
    Refused net (ipSend net dstIp protocol data) ↔ ¬ Sendable net dstIp := by
  rcases ipSend_fits net dstIp protocol hfits with
    ⟨hno, net', hsend, -, hsame⟩ | ⟨hyes, _, _, _, hsend⟩
  · exact iff_of_true ⟨net', hsend, hsame⟩ hno
  · refine iff_of_false ?_ fun h => h hyes
    rintro ⟨net', hfail, -⟩
    rw [hsend] at hfail
    exact absurd (congrArg Prod.snd (Option.some.inj hfail)) (by simp)

theorem udpSend_refused_iff (net : Net) (dstIp : Ip) (srcPort dstPort : Port) (data : List Byte) :
    Refused net (udpSend net dstIp srcPort dstPort data) ↔ ¬ Sendable net dstIp :=
  header_refused_iff net dstIp ipProtoUdp header_fits.2

/-- A stream write counts its bytes, so one that was not refused has moved the sequence number. -/
theorem streamSend_refused_iff {sockfd : Int} {i : Nat} (hopen : openSocket net sockfd = some i)
    (htype : (net.sockets i).type = 1) (buf : List Byte) :
    Refused net (brightsSend net sockfd buf) ↔
      ¬ (Sendable net (net.sockets i).remoteIp ∧ (net.sockets i).tcpState = .established) := by
  unfold brightsSend
  rw [hopen]
  dsimp only
  rw [if_neg (by rw [htype]; decide), if_pos htype]
  by_cases hstate : (net.sockets i).tcpState = .established
  · rw [if_neg (not_not.mpr hstate), and_iff_left hstate]
    have hfits : ethHdrSize + ipHdrSize +
        (socketHeader (net.sockets i) (tcpAck ||| tcpPsh)).bytes.length ≤ netBufSize :=
      header_fits.1
    rcases ipSend_fits net (net.sockets i).remoteIp ipProtoTcp hfits with
      ⟨hno, net', hsend, -, hsame⟩ | ⟨hyes, _, _, _, hsend⟩
    · rw [hsend]
      exact iff_of_true ⟨net', rfl, hsame⟩ hno
    · rw [hsend]
      refine iff_of_false ?_ fun h => h hyes
      rintro ⟨net', hfail, hsame⟩
      rw [Option.map_some, if_pos rfl, Option.some.injEq, Prod.mk.injEq] at hfail
      have hsock : (net'.sockets i).tcpSeq =
          (net.sockets i).tcpSeq + BitVec.ofNat 32 buf.length := by
        rw [← hfail.1]
        simp only [Net.setSocket, Function.update_self]
      rw [hsame] at hsock
      have hzero : BitVec.ofNat 32 buf.length = 0#32 := by
        apply (BitVec.add_right_inj (net.sockets i).tcpSeq).mp
        rw [← hsock, BitVec.add_zero]
      have hret := hfail.2
      rw [hzero] at hret
      exact absurd hret (by decide)
  · rw [if_pos hstate]
    exact iff_of_true ⟨net, rfl, rfl⟩ fun h => hstate h.2

theorem no_packet : ¬ netBufSize < ethHdrSize + ipHdrSize + 0 := by decide

/-- Only datagrams and stream writes can be too long, and nothing stops those that get through. -/
theorem refused_iff (c : NetCall) :
    (netBufSize < ethHdrSize + ipHdrSize + c.packetLen net → Refused net (c.run net)) ↔
      ¬ (netBufSize < ethHdrSize + ipHdrSize + c.packetLen net ∧ c.GetsThrough net) := by
  rw [not_and]
  refine imp_congr_right fun hlong => ?_
  cases c with
  | udpSend dstIp srcPort dstPort data => exact udpSend_refused_iff ..
  | send sockfd buf =>
      unfold NetCall.packetLen at hlong
      dsimp only at hlong
      cases hopen : openSocket net sockfd with
      | none =>
          rw [hopen] at hlong
          exact absurd hlong no_packet
      | some i =>
          rw [hopen] at hlong
          dsimp only at hlong
          have hthrough : (NetCall.send sockfd buf).GetsThrough net ↔
              Sendable net (net.sockets i).remoteIp ∧
                ((net.sockets i).type = 1 → (net.sockets i).tcpState = .established) := by
            constructor
            · rintro ⟨j, hj, h⟩
              obtain rfl : i = j := Option.some.inj (hopen.symm.trans hj)
              exact h
            · exact fun h => ⟨i, hopen, h⟩
          rw [hthrough]
          show Refused net (brightsSend net sockfd buf) ↔ _
          by_cases hdgram : (net.sockets i).type = 2
          · have hcall : brightsSend net sockfd buf = udpSend net (net.sockets i).remoteIp
                (net.sockets i).localPort (net.sockets i).remotePort buf := by
              unfold brightsSend
              rw [hopen]
              exact if_pos hdgram
            rw [hcall, udpSend_refused_iff, and_iff_left]
            intro hstream
            rw [hdgram] at hstream
            exact absurd hstream (by decide)
          rw [if_neg hdgram] at hlong
          by_cases hstream : (net.sockets i).type = 1
          · rw [streamSend_refused_iff hopen hstream]
            simp only [hstream, forall_const]
          · rw [if_neg hstream] at hlong
            exact absurd hlong no_packet
  | recv m len => exact absurd hlong no_packet
  | echoRequest dstIp => exact absurd hlong no_packet
  | tcpConnect dstIp dstPort => exact absurd hlong no_packet
  | connect sockfd addr port => exact absurd hlong no_packet
  | close sockfd => exact absurd hlong no_packet

end Long

/-! ### All calls -/

section Inside

variable {net net₁ : Net}

/-- What is done behind a send does not matter. -/
theorem map_well {α : Type} {r : Option (Net × Int)} {f : Net × Int → α} {g : α → Net}
    (hsent : net₁.sent = net.sent) (hf : ∀ x, (g (f x)).sent = x.1.sent)
    (h : ∃ x, r = some x ∧ SendsWell net₁ x.1) : ∃ x, r.map f = some x ∧ SendsWell net (g x) := by
  obtain ⟨x, rfl, new, hnew, hwell⟩ := h
  exact ⟨f x, rfl, new, by rw [hf, hnew, hsent], hwell⟩

theorem tcpConnect_well (net : Net) (dstIp : Ip) (dstPort : Port) :
    ∃ r, tcpConnect net dstIp dstPort = some r ∧ SendsWell net r.1 := by
  unfold tcpConnect
  cases (List.range netMaxSockets).find? fun i => !(net.sockets i).inUse with
  | none => exact ⟨_, rfl, .of_sent rfl⟩
  | some i => exact map_well rfl (fun _ => rfl) (tcpSend_well ..)

theorem brightsSend_well (net : Net) (sockfd : Int) (buf : List Byte) :
    ∃ r, brightsSend net sockfd buf = some r ∧ SendsWell net r.1 := by
  unfold brightsSend
  cases openSocket net sockfd with
  | none => exact ⟨_, rfl, .of_sent rfl⟩
  | some i =>
      dsimp only
      split_ifs
      · exact ipSend_runsWell net _ ipProtoUdp _ header_fits.2
      · exact ⟨_, rfl, .of_sent rfl⟩
      · refine map_well rfl (fun x => ?_) (tcpSend_well ..)
        split_ifs
        · rfl
        · rfl
      · exact ⟨_, rfl, .of_sent rfl⟩

theorem brightsClose_well (net : Net) (sockfd : Int) :
    ∃ r, brightsClose net sockfd = some r ∧ SendsWell net r.1 := by
  unfold brightsClose
  cases openSocket net sockfd with
  | none => exact ⟨_, rfl, .of_sent rfl⟩
  | some i =>
      dsimp only
      split_ifs
      · rw [Option.map_map]
        exact map_well rfl (fun _ => rfl) (tcpSend_well ..)
      · exact ⟨_, rfl, .of_sent rfl⟩

theorem brightsConnect_well (net : Net) (sockfd : Int) (addr : Ip) (port : Port) :
    ∃ r, brightsConnect net sockfd addr port = some r ∧ SendsWell net r.1 := by
  unfold brightsConnect
  cases openSocket net sockfd with
  | none => exact ⟨_, rfl, .of_sent rfl⟩
  | some i =>
      dsimp only
      split_ifs
      · obtain ⟨r, hrun, new, hnew, hwell⟩ := tcpConnect_well
          (net.setSocket i { net.sockets i with remoteIp := addr, remotePort := port }) addr port
        exact ⟨r, hrun, new, hnew, hwell⟩
      · exact ⟨_, rfl, .of_sent rfl⟩

/-- Every call but the receipt of a frame stays inside its buffers. -/
theorem inside_iff (c : NetCall) :
    (∃ r, c.run net = some r ∧ SendsWell net r.1) ↔ ¬ c.EchoesTooMuch net := by
  cases c with
  | recv m len =>
      rw [← netRecv_runsWell_iff]
      constructor
      · rintro ⟨r, hrun, hwell⟩
        obtain ⟨net', hrecv, rfl⟩ := Option.map_eq_some_iff.mp hrun
        exact ⟨net', hrecv, hwell⟩
      · rintro ⟨net', hrecv, hwell⟩
        exact ⟨(net', 0), by rw [NetCall.run, hrecv]; rfl, hwell⟩
  | echoRequest dstIp => exact iff_of_true (ipSend_runsWell net _ _ _ header_fits.2) fun h => h
  | udpSend dstIp srcPort dstPort data =>
      exact iff_of_true (ipSend_runsWell net _ _ _ header_fits.2) fun h => h
  | tcpConnect dstIp dstPort => exact iff_of_true (tcpConnect_well ..) fun h => h
  | connect sockfd addr port => exact iff_of_true (brightsConnect_well ..) fun h => h
  | send sockfd buf => exact iff_of_true (brightsSend_well ..) fun h => h
  | close sockfd => exact iff_of_true (brightsClose_well ..) fun h => h

end Inside

/--
**When outgoing packets fit.**  `ip_send` treats payload as it should exactly if there is no
interface or the payload fits; and of the calls that reach it, the ones that go wrong are the
receipt of an echo request whose headers say too much, and the datagrams and stream writes that
are too long and get through.
-/
theorem outgoing_fits_iff (net : Net) :
    (∀ dstIp protocol data, IpSendFits net dstIp protocol data ↔
      net.netifs = [] ∨ ethHdrSize + ipHdrSize + data.length ≤ netBufSize) ∧
    ∀ c : NetCall, PacketsFit net c ↔
      ¬ c.EchoesTooMuch net ∧
        ¬ (netBufSize < ethHdrSize + ipHdrSize + c.packetLen net ∧ c.GetsThrough net) := by
  refine ⟨fun _ _ _ => ipSendFits_iff, fun c => ?_⟩
  rw [← inside_iff, ← refused_iff]
  exact ⟨fun h => ⟨h.inside, h.refused⟩, fun h => ⟨h.1, h.2⟩⟩

/-- A ping as it is usual: 84 bytes of IP, of type 8. -/
def pingFrame : Mem := fun o =>
  [4, 4, 4, 4, 4, 4, 2, 2, 2, 2, 2, 2, 8, 0, 0x45, 0, 0, 84, 0, 0, 0, 0, 64, 1, 0, 0, 1, 0, 0, 0,
    2, 0, 0, 0, 8].getD o 0

/-- Its reply is taken to have millions of bytes, and is written behind the frame buffer. -/
theorem ping_overruns_frame : ¬ PacketsFit (lanHost 2 1) (.recv pingFrame 98) := by
  intro h
  refine (inside_iff _).mp h.inside ⟨by decide +kernel, ⟨by decide, ⟨lanIf 2, rfl, .inl ?_⟩, ?_⟩,
    by decide +kernel, by decide +kernel, by decide +kernel⟩
  · decide +kernel
  · exact .inl (by decide +kernel)

end BrightS
