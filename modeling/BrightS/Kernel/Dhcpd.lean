/-
The DHCP client: `sys/user/dhcpd.c`.

The client asks for an address, takes the offer of a server and asks for that one, and uses it once
the server has acknowledged it; some time later it starts over.  A round of the main loop sends what
is due and takes in one packet.

A packet is memory from its first byte on.  It has 552 bytes, of which the last 312 are options;
the loops over them may look at what lies behind.  What the clock, the socket and the interface
answer in a round of the main loop is an argument.
-/
import BrightS.Lib.Bytes

namespace BrightS

open Bytes

def dhcpOptionsOffset : Nat := 240
def dhcpOptionsSize : Nat := 312
def dhcpOptionsEnd : Nat := dhcpOptionsOffset + dhcpOptionsSize

/-! ### Packets

Fixed fields, the magic number, and the options behind it.  All numbers are written as the memory
of the machine has them.
-/

/-- The members of `dhcp_packet_t` that the client reads. -/
def dhcpOp (packet : Mem) : Byte := packet 0
def dhcpXid (packet : Mem) : BitVec 32 := load32 packet 4
def dhcpYiaddr (packet : Mem) : BitVec 32 := load32 packet 16
def dhcpSiaddr (packet : Mem) : BitVec 32 := load32 packet 20

/-- `packet.chaddr`: the client has a fixed address. -/
def dhcpChaddr : List Byte :=
  [0x52, 0x54, 0x00, 0x12, 0x34, 0x56] ++ List.replicate 10 0

/-- A request of the client, which is zero where it is not filled in. -/
def dhcpPacket (xid : BitVec 32) (flags : BitVec 16) (siaddr : BitVec 32) (options : List Byte) :
    List Byte :=
  [1, 1, 6, 0] ++ (store32 xid ++ (store16 0 ++ (store16 flags ++ (store32 0 ++ (store32 0 ++
    (store32 siaddr ++ (store32 0 ++ (dhcpChaddr ++ (List.replicate 64 0 ++
    (List.replicate 128 0 ++ (store32 0x63825363 ++ (options ++
    List.replicate (dhcpOptionsSize - options.length) 0))))))))))))

/-- The packet of `dhcp_send_discover`. -/
def dhcpDiscover (xid : BitVec 32) : List Byte :=
  dhcpPacket xid 0x8000 0 [53, 1, 1, 55, 4, 1, 3, 6, 15, 255]

/-- The packet of `dhcp_send_request`. -/
def dhcpRequest (xid clientIp serverIp : BitVec 32) : List Byte :=
  dhcpPacket xid 0 serverIp
    ([53, 1, 3] ++ ([50, 4] ++ store32 clientIp) ++ ([54, 4] ++ store32 serverIp) ++ [255])

/-! ### The daemon -/

/-- The comment at the variable names the three values. -/
inductive DhcpState where
  | discover
  | request
  | bound
  deriving DecidableEq, Repr

/-- The statics of the module, and the local variables of `dhcpd_main`. -/
structure Dhcpd where
  clientIp : BitVec 32
  serverIp : BitVec 32
  gatewayIp : BitVec 32
  dnsIp : BitVec 32
  xid : BitVec 32
  state : DhcpState
  lastSend : Int
  deriving DecidableEq, Repr

/-- What the calls in a round return: `sys_clock_ms`, `sys_send`, `sys_recv` and `sys_ifconfig`.
`response` is the variable of that name after `sys_recv`, and what lies behind it. -/
structure DhcpRound where
  now : Int
  sent : Int
  received : Int
  response : Mem
  configured : Int

/-- `dhcpd_main` before its loop, none when it returns; `clock` is the time that becomes the
transaction ID. -/
def dhcpdStart (sockfd bind clock : Int) : Option Dhcpd :=
  if sockfd < 0 then
    none
  else if bind < 0 then
    none
  else
    some
      { clientIp := 0, serverIp := 0, gatewayIp := 0, dnsIp := 0, xid := BitVec.ofInt 32 clock
        state := .discover, lastSend := 0 }

/-- The loop that looks for the type of a message, for at most `fuel` rounds. -/
def msgTypeLoop (packet : Mem) : Nat → Nat → Byte
  | 0, _ => 0
  | fuel + 1, opts =>
      if packet opts ≠ 255 ∧ opts < dhcpOptionsEnd then
        if packet opts = 53 ∧ packet (opts + 1) = 1 then
          packet (opts + 2)
        else
          msgTypeLoop packet fuel (opts + (2 + (packet (opts + 1)).toNat))
      else
        0

/-- An option takes two bytes and more. -/
def dhcpFuel : Nat := dhcpOptionsSize + 1

/-- `dhcp_get_msg_type`: the type of the message, or zero. -/
def dhcpMsgType (packet : Mem) : Byte := msgTypeLoop packet dhcpFuel dhcpOptionsOffset

/-- The offer is noted, unless it has no address in it. -/
def dhcpProcessOffer (s : Dhcpd) (packet : Mem) : Dhcpd × Int :=
  if dhcpYiaddr packet = 0 then
    (s, -1)
  else
    ({ s with clientIp := dhcpYiaddr packet, serverIp := dhcpSiaddr packet }, 0)

/-- The `switch` on an option.  A subnet mask is printed only. -/
def ackOption (packet : Mem) (s : Dhcpd) (opts : Nat) : Dhcpd :=
  let code := packet opts
  let len := packet (opts + 1)
  if code = 3 ∧ len = 4 then
    { s with gatewayIp := load32 packet (opts + 2) }
  else if code = 6 ∧ len = 4 then
    { s with dnsIp := load32 packet (opts + 2) }
  else
    s

/-- The loop over the options of an acknowledgement, for at most `fuel` rounds. -/
def ackLoop (packet : Mem) : Nat → Nat → Dhcpd → Dhcpd
  | 0, _, s => s
  | fuel + 1, opts, s =>
      if packet opts ≠ 255 ∧ opts < dhcpOptionsEnd then
        ackLoop packet fuel (opts + (2 + (packet (opts + 1)).toNat)) (ackOption packet s opts)
      else
        s

/-- An acknowledgement of another address is refused, one that the interface does not take is an
error. -/
def dhcpProcessAck (s : Dhcpd) (packet : Mem) (configured : Int) : Dhcpd × Int :=
  if dhcpYiaddr packet ≠ s.clientIp then
    (s, -1)
  else
    (ackLoop packet dhcpFuel dhcpOptionsOffset s, if configured = 0 then 0 else -1)

/-! ### The main loop

A round sends what is due, takes at most one packet, and looks whether the lease is over.
-/

/-- The daemon, and the packet that it hands to `sys_send`. -/
def dhcpdSend (s : Dhcpd) (r : DhcpRound) : Dhcpd × Option (List Byte) :=
  if s.state = .discover ∧ (s.lastSend = 0 ∨ 5000 < r.now - s.lastSend) then
    (if 0 < r.sent then { s with lastSend := r.now } else s, some (dhcpDiscover s.xid))
  else if s.state = .request ∧ 2000 < r.now - s.lastSend then
    (if 0 < r.sent then { s with lastSend := r.now } else s,
      some (dhcpRequest s.xid s.clientIp s.serverIp))
  else
    (s, none)

/-- What a packet does that belongs to the transaction. -/
def dhcpdReceive (s : Dhcpd) (r : DhcpRound) : Dhcpd :=
  if (0 < r.received ∧ dhcpXid r.response = s.xid) ∧ dhcpOp r.response = 2 then
    if dhcpMsgType r.response = 2 ∧ s.state = .discover then
      let (s, ret) := dhcpProcessOffer s r.response
      -- The request is to be sent at once.
      if ret = 0 then { s with state := .request, lastSend := 0 } else s
    else if dhcpMsgType r.response = 5 ∧ s.state = .request then
      let (s, ret) := dhcpProcessAck s r.response r.configured
      if ret = 0 then { s with state := .bound } else s
    else
      s
  else
    s

/-- The check for the end of the lease. -/
def dhcpdExpire (s : Dhcpd) (r : DhcpRound) : Dhcpd :=
  if s.state = .bound ∧ 300000 < r.now - s.lastSend then
    { s with state := .discover, lastSend := 0, clientIp := 0 }
  else
    s

/-- A round of the main loop. -/
def dhcpdRound (s : Dhcpd) (r : DhcpRound) : Dhcpd × Option (List Byte) :=
  let (s, packet) := dhcpdSend s r
  (dhcpdExpire (dhcpdReceive s r) r, packet)

end BrightS
