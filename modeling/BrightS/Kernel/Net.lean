/-
The network stack: `kernel/net/net.c`.

A frame that comes in is handed from layer to layer down to a socket, and may be answered on the
way.  A call on a socket makes a frame from the inside out, which goes to the first interface that
is up.

Frames are byte lists, and what the drivers were given to send is kept in order in `sent`.
A received frame is memory from the frame's first byte on together with a length: the
handlers follow pointers into that memory, and nothing keeps these below the length.
Header fields are kept as they lie in memory; the code turns them around where it uses
them.

A payload that does not fit the frame buffer of `ip_send` is copied past its end, and the
call is undefined.
-/
import BrightS.Lib.Bytes

namespace BrightS

open Bytes

def netMaxSockets : Nat := 32
def netBufSize : Nat := 1518
def arpCacheSize : Nat := 16
def ethHdrSize : Nat := 14
def arpHdrSize : Nat := 28
def ipHdrSize : Nat := 20
def icmpHdrSize : Nat := 8
def udpHdrSize : Nat := 8
def tcpHdrSize : Nat := 20

def ipProtoIcmp : Byte := 1
def ipProtoTcp : Byte := 6
def ipProtoUdp : Byte := 17

def tcpFin : Byte := 0x01
def tcpSyn : Byte := 0x02
def tcpPsh : Byte := 0x08
def tcpAck : Byte := 0x10

/-- Addresses and ports, as the fields of the source have them. -/
abbrev Mac := Vector Byte 6
abbrev Ip := BitVec 32
abbrev Port := BitVec 16

/-! ### Sockets

The buffer of a socket holds what has come and was not read yet.
-/

def recvBufSize : Nat := 4096

/-- The first `recv_len` bytes of a receive buffer. -/
structure RecvBuf where
  bytes : List Byte
  fits : bytes.length ≤ recvBufSize

/-- The room that is left. -/
def RecvBuf.avail (b : RecvBuf) : Nat := recvBufSize - b.bytes.length

/-- A buffer without bytes in it. -/
def RecvBuf.empty : RecvBuf := ⟨[], Nat.zero_le _⟩

/-- Copy the bytes behind those already there, as far as there is room. -/
def RecvBuf.push (b : RecvBuf) (bytes : List Byte) : RecvBuf where
  bytes := b.bytes ++ bytes.take b.avail
  fits := by
    have hfits := b.fits
    have htake := List.length_take_le b.avail bytes
    unfold RecvBuf.avail at htake ⊢
    rw [List.length_append]
    omega

/-- Drop the first `n` bytes. -/
def RecvBuf.drop (b : RecvBuf) (n : Nat) : RecvBuf where
  bytes := b.bytes.drop n
  fits := by
    have hfits := b.fits
    rw [List.length_drop]
    omega

/-- The states that the code gives a connection. -/
inductive TcpState where
  | listen | synSent | established | closing
  deriving DecidableEq, Repr

/-- `socket_t`.  Sequence numbers and addresses are kept in the byte order of the host. -/
structure Socket where
  inUse : Bool
  domain : Int
  type : Int
  localIp : Ip
  localPort : Port
  remoteIp : Ip
  remotePort : Port
  recv : RecvBuf
  tcpState : TcpState
  tcpSeq : BitVec 32
  tcpAck : BitVec 32

/-- `netif_t`: an interface, and the index of its driver. -/
structure NetIf where
  mac : Mac
  ipAddr : Ip
  up : Bool
  driverIdx : Int

/-- `arp_entry_t`. -/
structure ArpEntry where
  ip : Ip
  mac : Mac
  valid : Bool

/-- The statics of the module, and what was sent. -/
structure Net where
  netifs : List NetIf
  netDriverCount : Nat
  arpCache : Nat → ArpEntry
  sockets : Nat → Socket
  nextPort : Nat
  /-- The frames that were handed to a driver, the oldest first. -/
  sent : List (List Byte)

/-- Store a socket. -/
def Net.setSocket (net : Net) (i : Nat) (sock : Socket) : Net :=
  { net with sockets := Function.update net.sockets i sock }

/-! ### Headers

Each as a structure, with the bytes that it is sent as and the way it is read from memory.
-/

/-- The 14 bytes in front of a frame. -/
def ethHdr (dst src : Mac) (type : BitVec 16) : List Byte := dst.toList ++ (src.toList ++ store16 type)

/-- An IP header without options. -/
structure IpHdr where
  verIhl : Byte
  tos : Byte
  totalLen : BitVec 16
  ident : BitVec 16
  flagsFrag : BitVec 16
  ttl : Byte
  protocol : Byte
  checksum : BitVec 16
  srcIp : Ip
  dstIp : Ip

/-- The header as it is sent. -/
def IpHdr.bytes (ip : IpHdr) : List Byte :=
  [ip.verIhl] ++ ([ip.tos] ++ (store16 ip.totalLen ++ (store16 ip.ident ++ (store16 ip.flagsFrag ++
    ([ip.ttl] ++ ([ip.protocol] ++ (store16 ip.checksum ++ (store32 ip.srcIp ++
      store32 ip.dstIp))))))))

/-- The header as it is read, wherever that is. -/
def ipHdrAt (m : Mem) (a : Nat) : IpHdr where
  verIhl := m a
  tos := m (a + 1)
  totalLen := load16 m (a + 2)
  ident := load16 m (a + 4)
  flagsFrag := load16 m (a + 6)
  ttl := m (a + 8)
  protocol := m (a + 9)
  checksum := load16 m (a + 10)
  srcIp := load32 m (a + 12)
  dstIp := load32 m (a + 16)

/-- A UDP header. -/
structure UdpHdr where
  srcPort : BitVec 16
  dstPort : BitVec 16
  length : BitVec 16
  checksum : BitVec 16

/-- The header as it is sent. -/
def UdpHdr.bytes (udp : UdpHdr) : List Byte :=
  store16 udp.srcPort ++ (store16 udp.dstPort ++ (store16 udp.length ++ store16 udp.checksum))

/-- The header as it is read. -/
def udpHdrAt (m : Mem) (a : Nat) : UdpHdr where
  srcPort := load16 m a
  dstPort := load16 m (a + 2)
  length := load16 m (a + 4)
  checksum := load16 m (a + 6)

/-- A TCP header without options. -/
structure TcpHdr where
  srcPort : BitVec 16
  dstPort : BitVec 16
  seq : BitVec 32
  ack : BitVec 32
  dataOff : Byte
  flags : Byte
  window : BitVec 16
  checksum : BitVec 16
  urgent : BitVec 16
  deriving DecidableEq

/-- The header as it is sent. -/
def TcpHdr.bytes (tcp : TcpHdr) : List Byte :=
  store16 tcp.srcPort ++ (store16 tcp.dstPort ++ (store32 tcp.seq ++ (store32 tcp.ack ++
    ([tcp.dataOff] ++ ([tcp.flags] ++ (store16 tcp.window ++ (store16 tcp.checksum ++
      store16 tcp.urgent)))))))

/-- The header as it is read. -/
def tcpHdrAt (m : Mem) (a : Nat) : TcpHdr where
  srcPort := load16 m a
  dstPort := load16 m (a + 2)
  seq := load32 m (a + 4)
  ack := load32 m (a + 8)
  dataOff := m (a + 12)
  flags := m (a + 13)
  window := load16 m (a + 14)
  checksum := load16 m (a + 16)
  urgent := load16 m (a + 18)

/-- The flag is set. -/
def TcpHdr.has (tcp : TcpHdr) (flag : Byte) : Bool := tcp.flags &&& flag != 0

/-! ### Helpers -/

/-- The sum of the 16-bit words, and of a last byte that is left over. -/
def wordSum : List Byte → Nat
  | lo :: hi :: rest => (hi ++ lo).toNat + wordSum rest
  | [last] => last.toNat
  | [] => 0

/-- Add the carry to the low half. -/
def foldCarry (sum : Nat) : Nat := sum % 2 ^ 16 + sum / 2 ^ 16

/-- The loop of the source folds while there is a carry; two rounds leave none. -/
def ipChecksum (bytes : List Byte) : BitVec 16 :=
  ~~~(BitVec.ofNat 16 (foldCarry (foldCarry (wordSum bytes % 2 ^ 32))))

/-- `alloc_port`: the numbers from 49152 on, over and over. -/
def allocPort (net : Net) : Net × Port :=
  let next := net.nextPort + 1
  ({ net with nextPort := if 65535 < next then 49152 else next }, BitVec.ofNat 16 net.nextPort)

/-! ### Sending frames

An empty frame, a frame that is too long and one without a driver are dropped.
-/

/-- `brights_net_send`: the frame goes to the driver of the first interface that is up.  Nobody
learns whether it did. -/
def netSend (net : Net) (frame : List Byte) : Net :=
  if frame.length = 0 ∨ netBufSize < frame.length then net else
  match net.netifs.find? fun iface => iface.up with
  | none => net
  | some iface =>
      if iface.driverIdx < 0 ∨ (net.netDriverCount : Int) ≤ iface.driverIdx then net
      else { net with sent := net.sent ++ [frame] }

/-! ### ARP

Sixteen entries, which are never given up.
-/

/-- `arp_cache_find`: the first entry for the address. -/
def arpCacheFind (net : Net) (ip : Ip) : Option Nat :=
  (List.range arpCacheSize).find? fun i => (net.arpCache i).valid && (net.arpCache i).ip == ip

/-- `arp_cache_add`: the first entry that is not used is taken, if there is one. -/
def arpCacheAdd (net : Net) (ip : Ip) (mac : Mac) : Net :=
  match (List.range arpCacheSize).find? fun i => !(net.arpCache i).valid with
  | none => net
  | some i =>
      { net with arpCache := Function.update net.arpCache i { ip := ip, mac := mac, valid := true } }

/-- `arp_resolve`, without the request that its caller sends. -/
def arpResolve (net : Net) (targetIp : Ip) : Option Mac :=
  (arpCacheFind net targetIp).map fun i => (net.arpCache i).mac

/-- Hardware and protocol types and sizes, the operation, the sender and the target. -/
def arpBytes (opcode : BitVec 16) (senderMac : Mac) (senderIp : Ip) (targetMac : Mac)
    (targetIp : Ip) : List Byte :=
  store16 0x0100 ++ store16 0x0008 ++ [6, 4] ++ store16 opcode ++ senderMac.toList ++
    store32 senderIp ++ targetMac.toList ++ store32 targetIp

/-- `arp_request`: a broadcast, by the first interface. -/
def arpRequest (net : Net) (targetIp : Ip) : Net :=
  match net.netifs with
  | [] => net
  | iface :: _ =>
      netSend net (ethHdr (Vector.replicate 6 0xFF) iface.mac 0x0608 ++
        arpBytes 0x0100 iface.mac iface.ipAddr (Vector.replicate 6 0) targetIp)

/-- The six bytes of an address in memory. -/
def macAt (m : Mem) (a : Nat) : Mac := Vector.ofFn fun i => m (a + i.val)

/-- `arp_handle`: the sender is learnt from every packet, and a request for the first interface is
answered. -/
def arpHandle (net : Net) (m : Mem) (len : Nat) : Net :=
  if len < ethHdrSize + arpHdrSize then net else
  match net.netifs with
  | [] => net
  | iface :: _ =>
      let arp := ethHdrSize
      let opcode := load16 m (arp + 6)
      let senderMac := macAt m (arp + 8)
      let senderIp := load32 m (arp + 14)
      let targetIp := load32 m (arp + 24)
      let net := arpCacheAdd net senderIp senderMac
      if opcode = 0x0100 ∧ targetIp = iface.ipAddr then
        netSend net (ethHdr senderMac iface.mac 0x0608 ++
          arpBytes 0x0200 iface.mac iface.ipAddr senderMac senderIp)
      else net

/-! ### IP

Packets are built in a buffer of the size of a frame.  The checksum is written here and checked
nowhere.
-/

/-- The header that `ip_send` builds; the checksum is taken while its field is zero. -/
def ipSendHdr (srcIp dstIp : Ip) (protocol : Byte) (len : Nat) : IpHdr :=
  let hdr : IpHdr :=
    { verIhl := 0x45, tos := 0, totalLen := swap16 (BitVec.ofNat 16 (ipHdrSize + len)), ident := 0,
      flagsFrag := 0, ttl := 64, protocol := protocol, checksum := 0, srcIp := srcIp,
      dstIp := dstIp }
  { hdr with checksum := ipChecksum hdr.bytes }

/-- An unknown destination is asked for, and the packet dropped. -/
def ipSend (net : Net) (dstIp : Ip) (protocol : Byte) (data : List Byte) : Option (Net × Int) :=
  match net.netifs with
  | [] => some (net, -1)
  | iface :: _ =>
      if netBufSize < ethHdrSize + ipHdrSize + data.length then none else
      let ip := ipSendHdr iface.ipAddr dstIp protocol data.length
      match arpResolve net dstIp with
      | none => some (arpRequest net dstIp, -1)
      | some dstMac =>
          some (netSend net (ethHdr dstMac iface.mac 0x0008 ++ (ip.bytes ++ data)), 0)

/-! ### ICMP -/

/-- The request with the type of a reply and a new checksum. -/
def icmpReply (code : Byte) (rest : List Byte) : List Byte :=
  [0, code] ++ store16 (ipChecksum ([0, code, 0, 0] ++ rest)) ++ rest

/-- A request without data; the identifier and the sequence number are not turned around. -/
def icmpRequest (checksum : BitVec 16) : List Byte :=
  [8, 0] ++ store16 checksum ++ store16 0x1234 ++ store16 0x0001

/-- `brights_icmp_echo_request`. -/
def icmpEchoRequest (net : Net) (dstIp : Ip) : Option (Net × Int) :=
  ipSend net dstIp ipProtoIcmp (icmpRequest (ipChecksum (icmpRequest 0)))

/-- `icmp_handle`: an echo request is answered with what it has. -/
def icmpHandle (net : Net) (m : Mem) (data len : Nat) (srcIp : Ip) : Option Net :=
  if len < icmpHdrSize then some net else
  if m data = 8 then
    (ipSend net srcIp ipProtoIcmp
      (icmpReply (m (data + 1)) (slice m (data + 4) (len - 4)))).map Prod.fst
  else some net

/-! ### UDP -/

/-- The payload is counted in the length field, and not sent. -/
def udpSend (net : Net) (dstIp : Ip) (srcPort dstPort : Port) (data : List Byte) :
    Option (Net × Int) :=
  let len := udpHdrSize + data.length
  let udp : UdpHdr :=
    { srcPort := swap16 srcPort, dstPort := swap16 dstPort,
      length := BitVec.ofNat 16 ((len >>> 8) ||| (len <<< 8)), checksum := 0 }
  ipSend net dstIp ipProtoUdp udp.bytes

/-- The first datagram socket bound to the port. -/
def udpSocket (net : Net) (dstPort : Port) : Option Nat :=
  (List.range netMaxSockets).find? fun i =>
    (net.sockets i).inUse && (net.sockets i).type == 2 && (net.sockets i).localPort == dstPort

/-- `udp_handle`: what fits of the payload goes to the socket, which then answers to this sender. -/
def udpHandle (net : Net) (m : Mem) (data len : Nat) (srcIp : Ip) : Net :=
  if len < udpHdrSize then net else
  let udp := udpHdrAt m data
  match udpSocket net (swap16 udp.dstPort) with
  | none => net
  | some i =>
      let sock := net.sockets i
      let payloadLen := min (len - udpHdrSize) sock.recv.avail
      if 0 < payloadLen then
        net.setSocket i
          { sock with
            recv := sock.recv.push (slice m (data + udpHdrSize) payloadLen)
            remoteIp := srcIp, remotePort := swap16 udp.srcPort }
      else net

/-! ### TCP

There is no queue of segments and no timer: a segment is sent once, and what arrives is taken as it
comes.
-/

/-- A header without options, from one port to another. -/
def tcpHeader (srcPort dstPort : BitVec 16) (sock : Socket) (flags : Byte) : TcpHdr :=
  { srcPort := srcPort, dstPort := dstPort, seq := swap32 sock.tcpSeq, ack := swap32 sock.tcpAck,
    dataOff := 0x50, flags := flags, window := 0xFFFF, checksum := 0, urgent := 0 }

/-- The header of a segment that a socket sends on its own. -/
def socketHeader (sock : Socket) (flags : Byte) : TcpHdr :=
  tcpHeader (swap16 sock.localPort) (swap16 sock.remotePort) sock flags

/-- Answer a segment with a bare header. -/
def tcpReply (net : Net) (tcp : TcpHdr) (sock : Socket) (flags : Byte) (srcIp : Ip) : Option Net :=
  (ipSend net srcIp ipProtoTcp (tcpHeader tcp.dstPort tcp.srcPort sock flags).bytes).map Prod.fst

/-- `tcp_connect`: a socket is taken, and its first segment sent.  The result is the socket even
when the segment was not sent. -/
def tcpConnect (net : Net) (dstIp : Ip) (dstPort : Port) : Option (Net × Int) :=
  match (List.range netMaxSockets).find? fun i => !(net.sockets i).inUse with
  | none => some (net, -1)
  | some i =>
      let (net, localPort) := allocPort net
      let sock := net.sockets i
      let sock : Socket := { sock with
        inUse := true, domain := 1, type := 1, remoteIp := dstIp, remotePort := dstPort,
        localPort := localPort, tcpState := .synSent, tcpSeq := 1000, tcpAck := 0,
        recv := .empty
        localIp := match net.netifs with
          | [] => sock.localIp
          | iface :: _ => iface.ipAddr }
      let net := net.setSocket i sock
      let syn := { socketHeader sock tcpSyn with ack := 0 }
      (ipSend net dstIp ipProtoTcp syn.bytes).map fun r => (r.1, i)

/-- The first socket of the connection the segment belongs to. -/
def tcpSocket (net : Net) (srcIp : Ip) (srcPort dstPort : Port) : Option Nat :=
  (List.range netMaxSockets).find? fun i =>
    (net.sockets i).inUse && (net.sockets i).remoteIp == srcIp &&
      (net.sockets i).remotePort == srcPort && (net.sockets i).localPort == dstPort

/-- The `uint32_t` difference. -/
def sub32 (a b : Nat) : Nat := (a + (2 ^ 32 - b)) % 2 ^ 32

/-- The length of a TCP header, as its offset field has it. -/
def TcpHdr.dataStart (tcp : TcpHdr) : Nat := (tcp.dataOff >>> 4).toNat * 4

/-- The segment has reached its socket. -/
def tcpSegment (net : Net) (i : Nat) (tcp : TcpHdr) (m : Mem) (data len : Nat) (srcIp : Ip) :
    Option Net :=
  let sock := net.sockets i
  let seq := swap32 tcp.seq
  if tcp.has tcpSyn then
    let sock := { sock with tcpState := .established, tcpAck := seq + 1 }
    tcpReply (net.setSocket i sock) tcp sock (tcpSyn ||| tcpAck) srcIp
  else if tcp.has tcpAck then
    if sock.tcpState = .synSent then
      some (net.setSocket i { sock with tcpState := .established, tcpAck := seq })
    else some net
  else if tcp.has tcpFin then
    let sock := { sock with tcpState := .closing, tcpAck := seq + 1 }
    tcpReply (net.setSocket i sock) tcp sock tcpAck srcIp
  else if tcp.has tcpPsh ∨ (tcp.has tcpAck ∧ tcpHdrSize < len) then
    let payloadLen := min (sub32 len tcp.dataStart) sock.recv.avail
    if 0 < payloadLen then
      let sock := { sock with
        recv := sock.recv.push (slice m (data + tcp.dataStart) payloadLen)
        tcpAck := seq + BitVec.ofNat 32 payloadLen }
      tcpReply (net.setSocket i sock) tcp sock tcpAck srcIp
    else some net
  else some net

/-- `tcp_handle`: a segment that belongs to no socket is dropped. -/
def tcpHandle (net : Net) (m : Mem) (data len : Nat) (srcIp : Ip) : Option Net :=
  if len < tcpHdrSize then some net else
  let tcp := tcpHdrAt m data
  match tcpSocket net srcIp (swap16 tcp.srcPort) (swap16 tcp.dstPort) with
  | none => some net
  | some i => tcpSegment net i tcp m data len srcIp

/-! ### Receiving frames

The lengths in a packet are believed.  A handler gets a pointer and a length, and reads as far as
they say.
-/

/-- What `ip_handle` passes on to a protocol. -/
structure IpPayload where
  protocol : Byte
  data : Nat
  len : Nat
  srcIp : Ip

/-- The packet for us, if the frame is one.  The length field is turned around without the cut
to 16 bits. -/
def ipAccept (net : Net) (m : Mem) (len : Nat) : Option IpPayload :=
  if len < ethHdrSize + ipHdrSize then none else
  let ip := ipHdrAt m ethHdrSize
  let ipHdrLen := (ip.verIhl &&& 0x0F).toNat * 4
  let totalLen := ip.totalLen.toNat
  match net.netifs with
  | [] => none
  | iface :: _ =>
      if ip.dstIp ≠ iface.ipAddr ∧ ip.dstIp ≠ 0xFFFFFFFF then none else
      some { protocol := ip.protocol, data := ethHdrSize + ipHdrLen,
             len := sub32 ((totalLen >>> 8) ||| (totalLen <<< 8)) ipHdrLen, srcIp := ip.srcIp }

/-- `ip_handle`. -/
def ipHandle (net : Net) (m : Mem) (len : Nat) : Option Net :=
  match ipAccept net m len with
  | none => some net
  | some p =>
      if p.protocol = ipProtoIcmp then icmpHandle net m p.data p.len p.srcIp
      else if p.protocol = ipProtoUdp then some (udpHandle net m p.data p.len p.srcIp)
      else if p.protocol = ipProtoTcp then tcpHandle net m p.data p.len p.srcIp
      else some net

/-- `brights_net_recv`: the frame goes to the handler of its type. -/
def netRecv (net : Net) (m : Mem) (len : Nat) : Option Net :=
  if len < ethHdrSize then some net else
  let type := swap16 (load16 m 12)
  if type = 0x0806 then some (arpHandle net m len)
  else if type = 0x0800 then ipHandle net m len
  else some net

/-! ### The socket calls

A descriptor is the index of a socket.
-/

/-- The socket of a descriptor that is in use. -/
def openSocket (net : Net) (sockfd : Int) : Option Nat :=
  if sockfd < 0 ∨ (netMaxSockets : Int) ≤ sockfd then none else
  if (net.sockets sockfd.toNat).inUse then some sockfd.toNat else none

/-- `brights_socket`: the first entry that is free. -/
def brightsSocket (net : Net) (domain type : Int) : Net × Int :=
  match (List.range netMaxSockets).find? fun i => !(net.sockets i).inUse with
  | none => (net, -1)
  | some i =>
      let sock := net.sockets i
      let sock : Socket := { sock with
        inUse := true, domain := domain, type := type, localPort := 0, remoteIp := 0,
        remotePort := 0, tcpState := .listen, recv := .empty
        localIp := match net.netifs with
          | [] => sock.localIp
          | iface :: _ => iface.ipAddr }
      (net.setSocket i sock, i)

/-- `brights_bind`; nobody checks whether the port is taken. -/
def brightsBind (net : Net) (sockfd : Int) (addr : Ip) (port : Port) : Net × Int :=
  match openSocket net sockfd with
  | none => (net, -1)
  | some i => (net.setSocket i { net.sockets i with localIp := addr, localPort := port }, 0)

/-- `brights_listen`. -/
def brightsListen (net : Net) (sockfd : Int) : Net × Int :=
  match openSocket net sockfd with
  | none => (net, -1)
  | some i => (net.setSocket i { net.sockets i with tcpState := .listen }, 0)

/-- What is stored in the caller's address and port, and the value returned.  The socket itself
stands for the connection. -/
def brightsAccept (net : Net) (sockfd : Int) : Option (Ip × Port) × Int :=
  match openSocket net sockfd with
  | none => (none, -1)
  | some i =>
      let sock := net.sockets i
      if sock.tcpState = .established then (some (sock.remoteIp, sock.remotePort), i)
      else (none, -1)

/-- `brights_connect`: for a stream, `tcp_connect` takes one more socket. -/
def brightsConnect (net : Net) (sockfd : Int) (addr : Ip) (port : Port) : Option (Net × Int) :=
  match openSocket net sockfd with
  | none => some (net, -1)
  | some i =>
      let net := net.setSocket i { net.sockets i with remoteIp := addr, remotePort := port }
      if (net.sockets i).type = 1 then tcpConnect net addr port else some (net, 0)

/-- `brights_send`: a segment of a stream has no data in it, and its sequence number goes on as if
it had. -/
def brightsSend (net : Net) (sockfd : Int) (buf : List Byte) : Option (Net × Int) :=
  match openSocket net sockfd with
  | none => some (net, -1)
  | some i =>
      let sock := net.sockets i
      if sock.type = 2 then udpSend net sock.remoteIp sock.localPort sock.remotePort buf
      else if sock.type = 1 then
        if sock.tcpState ≠ .established then some (net, -1) else
        (ipSend net sock.remoteIp ipProtoTcp (socketHeader sock (tcpAck ||| tcpPsh)).bytes).map
          fun r =>
            if r.2 = 0 then
              (r.1.setSocket i { sock with tcpSeq := sock.tcpSeq + BitVec.ofNat 32 buf.length },
                (BitVec.ofNat 32 buf.length).toInt)
            else (r.1, -1)
      else some (net, -1)

/-- The bytes copied out, and the value returned. -/
def brightsRecv (net : Net) (sockfd : Int) (len : Nat) : Net × List Byte × Int :=
  match openSocket net sockfd with
  | none => (net, [], -1)
  | some i =>
      let sock := net.sockets i
      let n := min len sock.recv.bytes.length
      (net.setSocket i { sock with recv := sock.recv.drop n }, sock.recv.bytes.take n,
        (BitVec.ofNat 32 n).toInt)

/-- `brights_close`: an established stream sends its last segment first. -/
def brightsClose (net : Net) (sockfd : Int) : Option (Net × Int) :=
  match openSocket net sockfd with
  | none => some (net, -1)
  | some i =>
      let sock := net.sockets i
      let sent :=
        if sock.type = 1 ∧ sock.tcpState = .established then
          (ipSend net sock.remoteIp ipProtoTcp (socketHeader sock (tcpFin ||| tcpAck)).bytes).map
            Prod.fst
        else some net
      sent.map fun net => (net.setSocket i { sock with inUse := false }, 0)

end BrightS
