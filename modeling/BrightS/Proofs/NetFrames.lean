/-
What a frame built by this stack is to a stack that receives it.

Headers read back what was written (`tcpHdrAt_bytes` and its siblings).  `ipSend_eq` says
which frame leaves, `ipAccept_frame` what the receiver takes it for: the payload starts
where it was put, but its length comes out too large by `65536` times the low byte of the
total length, because the turned-around length field is not cut to 16 bits.

With that and the missing payload the round trips follow: a datagram arrives as whatever
lies in memory behind the frame (`udp_round_trip_iff`), a stream segment as nothing.
-/
import BrightS.Kernel.Net

namespace BrightS

open Bytes

/-! ### Headers -/

theorem ipHdrAt_bytes {m : Mem} {a : Nat} {ip : IpHdr} (h : Holds m a ip.bytes) :
    ipHdrAt m a = ip := by
  obtain ⟨verIhl, tos, totalLen, ident, flagsFrag, ttl, protocol, checksum, srcIp, dstIp⟩ := ip
  unfold IpHdr.bytes at h
  have h₂ := h.right.right
  have h₄ := h₂.right
  have h₆ := h₄.right
  have h₈ := h₆.right
  have h₁₀ := h₈.right.right
  have h₁₂ := h₁₀.right
  have h₁₆ := h₁₂.right
  simp only [ipHdrAt, IpHdr.mk.injEq]
  exact ⟨h.head, h.right.head, h₂.left.load16_eq, h₄.left.load16_eq, h₆.left.load16_eq, h₈.head,
    h₈.right.head, h₁₀.left.load16_eq, h₁₂.left.load32_eq, h₁₆.load32_eq⟩

theorem udpHdrAt_bytes {m : Mem} {a : Nat} {udp : UdpHdr} (h : Holds m a udp.bytes) :
    udpHdrAt m a = udp := by
  obtain ⟨srcPort, dstPort, length, checksum⟩ := udp
  unfold UdpHdr.bytes at h
  have h₂ := h.right
  have h₄ := h₂.right
  have h₆ := h₄.right
  simp only [udpHdrAt, UdpHdr.mk.injEq]
  exact ⟨h.left.load16_eq, h₂.left.load16_eq, h₄.left.load16_eq, h₆.load16_eq⟩

theorem tcpHdrAt_bytes {m : Mem} {a : Nat} {tcp : TcpHdr} (h : Holds m a tcp.bytes) :
    tcpHdrAt m a = tcp := by
  obtain ⟨srcPort, dstPort, seq, ack, dataOff, flags, window, checksum, urgent⟩ := tcp
  unfold TcpHdr.bytes at h
  have h₂ := h.right
  have h₄ := h₂.right
  have h₈ := h₄.right
  have h₁₂ := h₈.right
  have h₁₄ := h₁₂.right.right
  have h₁₆ := h₁₄.right
  have h₁₈ := h₁₆.right
  simp only [tcpHdrAt, TcpHdr.mk.injEq]
  exact ⟨h.left.load16_eq, h₂.left.load16_eq, h₄.left.load32_eq, h₈.left.load32_eq, h₁₂.head,
    h₁₂.right.head, h₁₄.left.load16_eq, h₁₆.left.load16_eq, h₁₈.load16_eq⟩

@[simp] theorem length_ipHdr (ip : IpHdr) : ip.bytes.length = ipHdrSize := rfl

@[simp] theorem length_udpHdr (udp : UdpHdr) : udp.bytes.length = udpHdrSize := rfl

@[simp] theorem length_tcpHdr (tcp : TcpHdr) : tcp.bytes.length = tcpHdrSize := rfl

@[simp] theorem length_ethHdr (dst src : Mac) (type : BitVec 16) :
    (ethHdr dst src type).length = ethHdrSize := by
  simp [ethHdr, ethHdrSize]

/-! ### Sending -/

/-- The frame of an IP packet. -/
def ipFrame (dstMac srcMac : Mac) (srcIp dstIp : Ip) (protocol : Byte) (data : List Byte) :
    List Byte :=
  ethHdr dstMac srcMac 0x0008 ++ ((ipSendHdr srcIp dstIp protocol data.length).bytes ++ data)

/-- The host can put frames out: it has an address, an interface that is up and has a driver. -/
structure Wired (net : Net) (iface : NetIf) : Prop where
  first : net.netifs.head? = some iface
  driver : ∃ out, (net.netifs.find? fun i => i.up) = some out ∧
    0 ≤ out.driverIdx ∧ out.driverIdx < net.netDriverCount

theorem netSend_sent {net : Net} {iface : NetIf} (hw : Wired net iface) {frame : List Byte}
    (hpos : 0 < frame.length) (hfits : frame.length ≤ netBufSize) :
    netSend net frame = { net with sent := net.sent ++ [frame] } := by
  obtain ⟨out, hup, hlo, hhi⟩ := hw.driver
  unfold netSend
  rw [if_neg (by omega), hup]
  dsimp only
  rw [if_neg (by omega)]

theorem length_ipFrame (dstMac srcMac : Mac) (srcIp dstIp : Ip) (protocol : Byte)
    (data : List Byte) : (ipFrame dstMac srcMac srcIp dstIp protocol data).length =
      ethHdrSize + (ipHdrSize + data.length) := by
  simp [ipFrame]

theorem ipSend_eq {net : Net} {iface : NetIf} (hw : Wired net iface) {dstIp : Ip} {dstMac : Mac}
    (harp : arpResolve net dstIp = some dstMac) (protocol : Byte) {data : List Byte}
    (hfits : ethHdrSize + ipHdrSize + data.length ≤ netBufSize) :
    ipSend net dstIp protocol data =
      some ({ net with
        sent := net.sent ++ [ipFrame dstMac iface.mac iface.ipAddr dstIp protocol data] }, 0) := by
  obtain ⟨rest, hifs⟩ : ∃ rest, net.netifs = iface :: rest := by
    have hfirst := hw.first
    cases hifs : net.netifs with
    | nil =>
        rw [hifs] at hfirst
        exact absurd hfirst (by simp)
    | cons first rest =>
        rw [hifs] at hfirst
        exact ⟨rest, by rw [Option.some.inj hfirst]⟩
  have hlen := length_ipFrame dstMac iface.mac iface.ipAddr dstIp protocol data
  have hsize : ethHdrSize = 14 := rfl
  have hframe : netSend net (ipFrame dstMac iface.mac iface.ipAddr dstIp protocol data) = _ :=
    netSend_sent hw (by omega) (by omega)
  rw [← hframe]
  unfold ipSend
  rw [hifs]
  dsimp only
  rw [if_neg (by omega), harp]
  rfl

/-! ### Receiving -/

/-- The total length as the receiver computes it, for the length the sender stored. -/
theorem wide_swap {total : Nat} (ht : total < 2 ^ 16) :
    ((swap16 (BitVec.ofNat 16 total)).toNat >>> 8) |||
        ((swap16 (BitVec.ofNat 16 total)).toNat <<< 8) = 65536 * (total % 256) + total := by
  have hswap : (swap16 (BitVec.ofNat 16 total)).toNat = total % 256 * 256 + total / 256 := by
    rw [toNat_swap16, BitVec.toNat_ofNat, Nat.mod_eq_of_lt ht]
  rw [shiftRight_or_shiftLeft (BitVec.isLt _), hswap]
  omega

/-- The memory behind the address holds a frame of this stack. -/
theorem ipAccept_frame {net : Net} {iface : NetIf} (hfirst : net.netifs.head? = some iface)
    {dstMac srcMac : Mac} {srcIp : Ip} {protocol : Byte} {data : List Byte} {m : Mem} {len : Nat}
    (hm : Holds m 0 (ipFrame dstMac srcMac srcIp iface.ipAddr protocol data))
    (hlen : ethHdrSize + ipHdrSize ≤ len) (hfits : ipHdrSize + data.length < 2 ^ 16) :
    ipAccept net m len = some
      { protocol := protocol, data := ethHdrSize + ipHdrSize, srcIp := srcIp
        len := 65536 * ((ipHdrSize + data.length) % 256) + data.length } := by
  have hip : ipHdrAt m ethHdrSize = ipSendHdr srcIp iface.ipAddr protocol data.length := by
    apply ipHdrAt_bytes
    have hright := hm.right
    rw [length_ethHdr, Nat.zero_add] at hright
    exact hright.left
  have hsize : ipHdrSize = 20 := rfl
  have hihl : ((ipSendHdr srcIp iface.ipAddr protocol data.length).verIhl &&& 0x0F).toNat * 4 =
      ipHdrSize := by
    have hver : (ipSendHdr srcIp iface.ipAddr protocol data.length).verIhl = 0x45#8 := rfl
    rw [hver]
    decide
  have htotal : (ipSendHdr srcIp iface.ipAddr protocol data.length).totalLen =
      swap16 (BitVec.ofNat 16 (ipHdrSize + data.length)) := rfl
  unfold ipAccept
  rw [if_neg (by omega)]
  cases hifs : net.netifs with
  | nil =>
      rw [hifs] at hfirst
      exact absurd hfirst (by simp)
  | cons first rest =>
      rw [hifs] at hfirst
      have heq : first = iface := Option.some.inj hfirst
      simp only [hip, hihl, htotal, wide_swap hfits, heq]
      rw [if_neg (fun h => h.1 rfl)]
      simp only [Option.some.injEq, IpPayload.mk.injEq]
      refine ⟨rfl, trivial, ?_, rfl⟩
      unfold sub32
      omega

theorem ipFrame_data {dstMac srcMac : Mac} {srcIp dstIp : Ip} {protocol : Byte} {data : List Byte}
    {m : Mem} (hm : Holds m 0 (ipFrame dstMac srcMac srcIp dstIp protocol data)) :
    Holds m (ethHdrSize + ipHdrSize) data := by
  have hright := hm.right.right
  rw [length_ethHdr, length_ipHdr, Nat.zero_add] at hright
  exact hright

/-- The frame says that it has an IP packet. -/
theorem ipFrame_type {dstMac srcMac : Mac} {srcIp dstIp : Ip} {protocol : Byte} {data : List Byte}
    {m : Mem} (hm : Holds m 0 (ipFrame dstMac srcMac srcIp dstIp protocol data)) :
    swap16 (load16 m 12) = 0x0800 := by
  have hright := hm.left.right.right
  rw [Vector.length_toList, Vector.length_toList] at hright
  rw [hright.load16_eq]
  decide

/-! ### Datagrams -/

/-- A host that sends, and one that receives what the first sent. -/
structure Route (src dst : Net) (srcIf dstIf : NetIf) (dstMac : Mac) : Prop where
  wired : Wired src srcIf
  arp : arpResolve src dstIf.ipAddr = some dstMac
  first : dst.netifs.head? = some dstIf

/-- The frame that was sent is handled by the other host, with `behind` behind it in memory, and
socket `i` then offers what it had and the payload. -/
def Arrives (sent : Option (Net × Int)) (dst : Net) (behind : Mem) (i : Nat)
    (payload : List Byte) : Prop :=
  ∃ src' ret frame dst', sent = some (src', ret) ∧ src'.sent.getLast? = some frame ∧
    ipHandle dst (onto frame behind) frame.length = some dst' ∧
    ∀ len, (brightsRecv dst' i len).2.1 = ((dst.sockets i).recv.bytes ++ payload).take len

theorem openSocket_eq {net : Net} {i : Nat} (hi : i < netMaxSockets)
    (huse : (net.sockets i).inUse = true) : openSocket net i = some i := by
  unfold openSocket
  rw [if_neg (by omega), Int.toNat_natCast, if_pos huse]

/-- What a socket offers is what its buffer holds. -/
theorem brightsRecv_iff {net : Net} {i : Nat} (hi : i < netMaxSockets)
    (huse : (net.sockets i).inUse = true) (bytes : List Byte) :
    (∀ len, (brightsRecv net i len).2.1 = bytes.take len) ↔
      (net.sockets i).recv.bytes = bytes := by
  have hrecv : ∀ len, (brightsRecv net i len).2.1 = (net.sockets i).recv.bytes.take len := by
    intro len
    unfold brightsRecv
    rw [openSocket_eq hi huse]
    dsimp only
    rw [List.take_eq_take_iff]
    omega
  constructor
  · intro h
    have hlong := h (max bytes.length (net.sockets i).recv.bytes.length)
    rw [hrecv, List.take_of_length_le (by omega), List.take_of_length_le (by omega)] at hlong
    exact hlong
  · intro h len
    rw [hrecv, h]

theorem push_take {b : RecvBuf} {bytes : List Byte} (hlen : bytes.length ≤ b.avail) :
    (b.push bytes).bytes = b.bytes ++ bytes := by
  unfold RecvBuf.push
  dsimp only
  rw [List.take_of_length_le hlen]

theorem udpSocket_spec {net : Net} {port : Port} {i : Nat} (h : udpSocket net port = some i) :
    i < netMaxSockets ∧ (net.sockets i).inUse = true := by
  have hfound := List.find?_some h
  simp only [Bool.and_eq_true] at hfound
  exact ⟨List.mem_range.mp (List.mem_of_find?_eq_some h), hfound.1.1⟩

theorem tcpSocket_spec {net : Net} {ip : Ip} {srcPort dstPort : Port} {i : Nat}
    (h : tcpSocket net ip srcPort dstPort = some i) :
    i < netMaxSockets ∧ (net.sockets i).inUse = true := by
  have hfound := List.find?_some h
  simp only [Bool.and_eq_true] at hfound
  exact ⟨List.mem_range.mp (List.mem_of_find?_eq_some h), hfound.1.1.1⟩

section RoundTrip

variable {src dst : Net} {srcIf dstIf : NetIf} {dstMac : Mac}

/-- A datagram fills the buffer with what lies behind the header in memory. -/
theorem udpHandle_header {m : Mem} {a len i : Nat} {udp : UdpHdr} (hm : Holds m a udp.bytes)
    (hlen : udpHdrSize + recvBufSize ≤ len) (hsock : udpSocket dst (swap16 udp.dstPort) = some i)
    (srcIp : Ip) :
    ((udpHandle dst m a len srcIp).sockets i).inUse = true ∧
      ((udpHandle dst m a len srcIp).sockets i).recv.bytes =
        (dst.sockets i).recv.bytes ++ slice m (a + udpHdrSize) (dst.sockets i).recv.avail := by
  have huse := (udpSocket_spec hsock).2
  have havail : (dst.sockets i).recv.avail ≤ recvBufSize := Nat.sub_le _ _
  have hmin : min (len - udpHdrSize) (dst.sockets i).recv.avail = (dst.sockets i).recv.avail :=
    min_eq_right (by omega)
  unfold udpHandle
  rw [if_neg (by omega), udpHdrAt_bytes hm]
  simp only [hsock, hmin]
  split
  · simp [Net.setSocket, huse, push_take]
  · rename_i hfull
    have hzero : (dst.sockets i).recv.avail = 0 := by omega
    simp [huse, hzero, slice]

theorem arrives_iff {sent : Option (Net × Int)} {src' dst' : Net} {ret : Int} {frame : List Byte}
    {behind : Mem} {i : Nat} (payload : List Byte) (hsent : sent = some (src', ret))
    (hlast : src'.sent.getLast? = some frame)
    (hhandle : ipHandle dst (onto frame behind) frame.length = some dst') (hi : i < netMaxSockets)
    (huse : (dst'.sockets i).inUse = true) :
    Arrives sent dst behind i payload ↔
      (dst'.sockets i).recv.bytes = (dst.sockets i).recv.bytes ++ payload := by
  rw [← brightsRecv_iff hi huse]
  constructor
  · intro ⟨src'', ret', frame', dst'', hsent', hlast', hhandle', hrecv⟩
    have hsrc : src'' = src' := by
      rw [hsent, Option.some.injEq, Prod.mk.injEq] at hsent'
      exact hsent'.1.symm
    have hframe : frame' = frame := by
      rw [hsrc, hlast, Option.some.injEq] at hlast'
      exact hlast'.symm
    have hdst : dst'' = dst' := by
      rw [hframe, hhandle, Option.some.injEq] at hhandle'
      exact hhandle'.symm
    rw [← hdst]
    exact hrecv
  · intro hrecv
    exact ⟨src', ret, frame, dst', hsent, hlast, hhandle, hrecv⟩

/-- What follows a frame in memory is not part of it. -/
theorem slice_onto {frame : List Byte} {behind : Mem} {a : Nat} (ha : frame.length ≤ a) (n : Nat) :
    slice (onto frame behind) a n = slice behind a n := by
  apply slice_congr
  intro k hk _
  exact onto_behind (by omega)

theorem udp_arrives_iff (hroute : Route src dst srcIf dstIf dstMac) (srcPort : Port)
    {dstPort : Port} {i : Nat} (hsock : udpSocket dst dstPort = some i) (payload : List Byte)
    (behind : Mem) :
    Arrives (udpSend src dstIf.ipAddr srcPort dstPort payload) dst behind i payload ↔
      payload.length = (dst.sockets i).recv.avail ∧ Holds behind 42 payload := by
  obtain ⟨udp, hport, hcall⟩ : ∃ udp : UdpHdr, udp.dstPort = swap16 dstPort ∧
      udpSend src dstIf.ipAddr srcPort dstPort payload =
        ipSend src dstIf.ipAddr ipProtoUdp udp.bytes := ⟨_, rfl, rfl⟩
  have hsize : udp.bytes.length = 8 := rfl
  have hsend := ipSend_eq hroute.wired hroute.arp ipProtoUdp
    (show ethHdrSize + ipHdrSize + udp.bytes.length ≤ netBufSize by rw [hsize]; decide)
  generalize hframe : ipFrame dstMac srcIf.mac srcIf.ipAddr dstIf.ipAddr ipProtoUdp udp.bytes =
    frame at hsend
  have hlen : frame.length = 42 := by
    rw [← hframe, length_ipFrame, hsize]
    rfl
  have hm : Holds (onto frame behind) 0
      (ipFrame dstMac srcIf.mac srcIf.ipAddr dstIf.ipAddr ipProtoUdp udp.bytes) := by
    rw [hframe]
    exact holds_onto frame behind
  have hhandle : ipHandle dst (onto frame behind) frame.length =
      some (udpHandle dst (onto frame behind) 34 (65536 * 28 + 8) srcIf.ipAddr) := by
    unfold ipHandle
    rw [ipAccept_frame hroute.first hm (by rw [hlen]; decide) (by rw [hsize]; decide), hsize]
    rfl
  have hport' : udpSocket dst (swap16 udp.dstPort) = some i := by
    rw [hport, swap16_swap16]
    exact hsock
  obtain ⟨huse, hbytes⟩ := udpHandle_header (ipFrame_data hm)
    (show udpHdrSize + recvBufSize ≤ 65536 * 28 + 8 by decide) hport' srcIf.ipAddr
  rw [hcall, arrives_iff payload hsend (by simp) hhandle (udpSocket_spec hsock).1 huse]
  have hread : ((udpHandle dst (onto frame behind) 34 (65536 * 28 + 8)
      srcIf.ipAddr).sockets i).recv.bytes =
        (dst.sockets i).recv.bytes ++ slice behind 42 (dst.sockets i).recv.avail := by
    rw [← slice_onto (le_of_eq hlen)]
    exact hbytes
  rw [hread, List.append_cancel_left_eq]
  constructor
  · intro h
    have hcount : payload.length = (dst.sockets i).recv.avail := by rw [← h, length_slice]
    rw [← hcount] at h
    exact ⟨hcount, slice_eq_iff.mp h⟩
  · intro ⟨hcount, hholds⟩
    rw [← hcount]
    exact slice_eq_iff.mpr hholds

/-- The length that the receiver computes for a bare TCP header. -/
def tcpWireLen : Nat := 65536 * 40 + 20

/-- A frame with a bare TCP header reaches the socket of its connection. -/
theorem ipHandle_tcp (hfirst : dst.netifs.head? = some dstIf) {srcMac : Mac} {srcIp : Ip}
    {tcp : TcpHdr} {m : Mem} {len j : Nat}
    (hm : Holds m 0 (ipFrame dstMac srcMac srcIp dstIf.ipAddr ipProtoTcp tcp.bytes))
    (hlen : ethHdrSize + ipHdrSize ≤ len)
    (hsock : tcpSocket dst srcIp (swap16 tcp.srcPort) (swap16 tcp.dstPort) = some j) :
    ipHandle dst m len = tcpSegment dst j tcp m 34 tcpWireLen srcIp := by
  have hhdr : tcpHdrAt m 34 = tcp := tcpHdrAt_bytes (ipFrame_data hm)
  unfold ipHandle
  rw [ipAccept_frame hfirst hm hlen (by rw [length_tcpHdr]; decide)]
  show tcpHandle dst m 34 tcpWireLen srcIp = _
  unfold tcpHandle
  rw [if_neg (by decide), hhdr]
  dsimp only
  rw [hsock]

@[simp] theorem has_socketHeader (sock : Socket) (flags flag : Byte) :
    (socketHeader sock flags).has flag = (flags &&& flag != 0) := rfl

/-- An acknowledgement completes a connection that was being opened, and does nothing else. -/
def afterAck (sock : Socket) (seq : BitVec 32) : Socket :=
  if sock.tcpState = .synSent then { sock with tcpState := .established, tcpAck := seq } else sock

theorem setSocket_same (net : Net) (i : Nat) : net.setSocket i (net.sockets i) = net := by
  unfold Net.setSocket
  rw [Function.update_eq_self]

theorem tcpSegment_ack {net : Net} {tcp : TcpHdr} (hsyn : tcp.has tcpSyn = false)
    (hack : tcp.has tcpAck = true) (i : Nat) (m : Mem) (data len : Nat) (srcIp : Ip) :
    tcpSegment net i tcp m data len srcIp =
      some (net.setSocket i (afterAck (net.sockets i) (swap32 tcp.seq))) := by
  unfold tcpSegment afterAck
  rw [if_neg (by simp [hsyn]), if_pos hack]
  split
  · rfl
  · rw [setSocket_same]

@[simp] theorem afterAck_recv (sock : Socket) (seq : BitVec 32) :
    (afterAck sock seq).recv = sock.recv := by
  unfold afterAck
  split <;> rfl

@[simp] theorem afterAck_inUse (sock : Socket) (seq : BitVec 32) :
    (afterAck sock seq).inUse = sock.inUse := by
  unfold afterAck
  split <;> rfl

/-- A stream socket that is connected, on its way to the socket at the other end. -/
structure Connected (src dst : Net) (srcIf dstIf : NetIf) (i j : Nat) : Prop where
  inTable : i < netMaxSockets
  inUse : (src.sockets i).inUse = true
  stream : (src.sockets i).type = 1
  established : (src.sockets i).tcpState = .established
  peer : (src.sockets i).remoteIp = dstIf.ipAddr
  found : tcpSocket dst srcIf.ipAddr (src.sockets i).localPort (src.sockets i).remotePort = some j

/-- The frame of a data segment. -/
def dataFrame (src : Net) (srcIf dstIf : NetIf) (dstMac : Mac) (i : Nat) : List Byte :=
  ipFrame dstMac srcIf.mac srcIf.ipAddr dstIf.ipAddr ipProtoTcp
    (socketHeader (src.sockets i) (tcpAck ||| tcpPsh)).bytes

theorem brightsSend_eq (hroute : Route src dst srcIf dstIf dstMac) {i j : Nat}
    (hconn : Connected src dst srcIf dstIf i j) (payload : List Byte) :
    brightsSend src i payload =
      some (({ src with sent := src.sent ++ [dataFrame src srcIf dstIf dstMac i] } : Net).setSocket i
        { src.sockets i with tcpSeq := (src.sockets i).tcpSeq + BitVec.ofNat 32 payload.length },
        (BitVec.ofNat 32 payload.length).toInt) := by
  have hsend := ipSend_eq hroute.wired hroute.arp ipProtoTcp
    (show ethHdrSize + ipHdrSize +
      (socketHeader (src.sockets i) (tcpAck ||| tcpPsh)).bytes.length ≤ netBufSize by
        rw [length_tcpHdr]; decide)
  unfold brightsSend
  rw [openSocket_eq hconn.inTable hconn.inUse]
  simp only [hconn.stream, hconn.established, hconn.peer, hsend]
  rfl

theorem tcp_arrives_iff (hroute : Route src dst srcIf dstIf dstMac) {i j : Nat}
    (hconn : Connected src dst srcIf dstIf i j) (payload : List Byte) (behind : Mem) :
    Arrives (brightsSend src i payload) dst behind j payload ↔ payload = [] := by
  obtain ⟨hj, huse⟩ := tcpSocket_spec hconn.found
  have hcall := brightsSend_eq hroute hconn payload
  generalize hframe : dataFrame src srcIf dstIf dstMac i = frame at hcall
  have hlen : frame.length = 54 := by
    rw [← hframe, dataFrame, length_ipFrame, length_tcpHdr]
    rfl
  have hm : Holds (onto frame behind) 0 (dataFrame src srcIf dstIf dstMac i) := by
    rw [hframe]
    exact holds_onto frame behind
  have hfound : tcpSocket dst srcIf.ipAddr
      (swap16 (socketHeader (src.sockets i) (tcpAck ||| tcpPsh)).srcPort)
      (swap16 (socketHeader (src.sockets i) (tcpAck ||| tcpPsh)).dstPort) = some j := by
    simpa [socketHeader, tcpHeader] using hconn.found
  have hhandle : ipHandle dst (onto frame behind) frame.length = _ :=
    ipHandle_tcp hroute.first hm (by rw [hlen]; decide) hfound
  rw [tcpSegment_ack (by rw [has_socketHeader]; decide) (by rw [has_socketHeader]; decide)] at hhandle
  rw [arrives_iff payload hcall (by simp [Net.setSocket]) hhandle hj
    (by simp [Net.setSocket, huse])]
  simp [Net.setSocket]

/--
**No payload travels.**  A datagram arrives as it was sent exactly when the room in the
receiver's buffer is the length of the payload and the memory behind the received frame happens
to hold the payload; the payload of a stream segment arrives exactly when it is empty.
-/
theorem net_round_trip_iff (hroute : Route src dst srcIf dstIf dstMac) (payload : List Byte)
    (behind : Mem) :
    (∀ srcPort dstPort i, udpSocket dst dstPort = some i →
      (Arrives (udpSend src dstIf.ipAddr srcPort dstPort payload) dst behind i payload ↔
        payload.length = (dst.sockets i).recv.avail ∧ Holds behind 42 payload)) ∧
    ∀ i j, Connected src dst srcIf dstIf i j →
      (Arrives (brightsSend src i payload) dst behind j payload ↔ payload = []) := by
  constructor
  · intro srcPort dstPort i hsock
    exact udp_arrives_iff hroute srcPort hsock payload behind
  · intro i j hconn
    exact tcp_arrives_iff hroute hconn payload behind

end RoundTrip

/-! ### Two hosts -/

def lanIf (ip : Ip) : NetIf :=
  { mac := Vector.replicate 6 0x02, ipAddr := ip, up := true, driverIdx := 0 }

def closedSocket : Socket :=
  { inUse := false, domain := 1, type := 0, localIp := 0, localPort := 0, remoteIp := 0,
    remotePort := 0, recv := .empty, tcpState := .listen, tcpSeq := 0, tcpAck := 0 }

/-- A host with address `ip` that knows the one with address `peer`.  Socket 0 is for datagrams,
socket 1 is an established stream to the peer. -/
def lanHost (ip peer : Ip) : Net where
  netifs := [lanIf ip]
  netDriverCount := 1
  arpCache i := { ip := peer, mac := Vector.replicate 6 0x04, valid := i == 0 }
  sockets i :=
    if i = 0 then { closedSocket with inUse := true, type := 2, localPort := 53 }
    else if i = 1 then { closedSocket with
      inUse := true, type := 1, localPort := 80, remotePort := 80, remoteIp := peer,
      tcpState := .established, tcpSeq := 1000, tcpAck := 1000 }
    else closedSocket
  nextPort := 49152
  sent := []

theorem lanHost_wired (ip peer : Ip) : Wired (lanHost ip peer) (lanIf ip) :=
  ⟨rfl, lanIf ip, rfl, by simp [lanIf], by simp [lanIf, lanHost]⟩

theorem lanHost_route (ip peer : Ip) : Route (lanHost ip peer) (lanHost peer ip) (lanIf ip)
    (lanIf peer) (Vector.replicate 6 0x04) := by
  refine ⟨lanHost_wired ip peer, ?_, rfl⟩
  simp [arpResolve, arpCacheFind, arpCacheSize, lanHost, lanIf, List.range_succ_eq_map]

/-- Host 1 sends three bytes to host 2, as a datagram and on the stream. -/
theorem net_round_trip_lan :
    (Arrives (udpSend (lanHost 1 2) 2 53 53 [7, 8, 9]) (lanHost 2 1) (fun _ => 0) 0 [7, 8, 9] ↔
      3 = 4096 ∧ Holds (fun _ => 0) 42 [7, 8, 9]) ∧
    (Arrives (brightsSend (lanHost 1 2) 1 [7, 8, 9]) (lanHost 2 1) (fun _ => 0) 1 [7, 8, 9] ↔
      ([7, 8, 9] : List Byte) = []) := by
  have hboth := net_round_trip_iff (lanHost_route 1 2) [7, 8, 9] fun _ => 0
  have hconn : Connected (lanHost 1 2) (lanHost 2 1) (lanIf 1) (lanIf 2) 1 1 :=
    ⟨by decide, rfl, rfl, rfl, rfl, by decide +kernel⟩
  exact ⟨hboth.1 53 53 0 (by decide +kernel), hboth.2 1 1 hconn⟩

/-- What the receiver of a three-byte datagram gets is a full buffer of the zeros behind the
frame. -/
theorem udp_payload_lost :
    udpSocket (lanHost 2 1) 53 = some 0 ∧
      ¬ Arrives (udpSend (lanHost 1 2) 2 53 53 [7, 8, 9]) (lanHost 2 1) (fun _ => 0) 0
        [7, 8, 9] := by
  refine ⟨by decide +kernel, fun harrives => ?_⟩
  have hiff := udp_arrives_iff (lanHost_route 1 2) 53
    (show udpSocket (lanHost 2 1) 53 = some 0 by decide +kernel) [7, 8, 9] fun _ => 0
  have hlen := (hiff.mp harrives).1
  exact absurd hlen (by decide +kernel)

/-! ### The interface -/

theorem netSend_cases (net : Net) (frame : List Byte) :
    netSend net frame = net ∨ netSend net frame = { net with sent := net.sent ++ [frame] } := by
  unfold netSend
  split
  · exact .inl rfl
  · split
    · exact .inl rfl
    · split
      · exact .inl rfl
      · exact .inr rfl

theorem netSend_sockets (net : Net) (frame : List Byte) :
    (netSend net frame).sockets = net.sockets := by
  rcases netSend_cases net frame with h | h <;> rw [h]

theorem arpRequest_sockets (net : Net) (ip : Ip) : (arpRequest net ip).sockets = net.sockets := by
  unfold arpRequest
  split
  · rfl
  · exact netSend_sockets net _

end BrightS
