/-
Passive open.

A segment is matched with the four numbers of a connection, and a listening socket has no
remote address yet: `socket` has put zeros there, and neither `bind` nor `listen` nor the
segment changes them.  A SYN is therefore answered only when the listening socket happens to
have the address and the port of its sender, left there by an earlier `connect`, and no
socket before it has the same four numbers (`passive_open_iff`).
-/
import BrightS.Proofs.TcpHandshake
import BrightS.Proofs.TcpStream

namespace BrightS

open Bytes

/-- The socket is bound to the port and listens. -/
structure Listening (net : Net) (i : Nat) (port : Port) : Prop where
  inTable : i < netMaxSockets
  inUse : (net.sockets i).inUse = true
  bound : (net.sockets i).localPort = port
  listens : (net.sockets i).tcpState = .listen

/-- The frame in memory is for this host, and `p` is a SYN segment for the port in it. -/
structure SynArrives (net : Net) (m : Mem) (len : Nat) (p : IpPayload) (port : Port) : Prop where
  accepted : ipAccept net m len = some p
  protocol : p.protocol = ipProtoTcp
  header : tcpHdrSize ≤ p.len
  syn : (tcpHdrAt m p.data).has tcpSyn = true
  dstPort : swap16 (tcpHdrAt m p.data).dstPort = port

/-- One frame was sent, and it is the SYN and ACK for the segment. -/
def SynAcked (net net' : Net) (srcIp : Ip) (tcp : TcpHdr) : Prop :=
  ∃ dstMac srcMac ip ack,
    net'.sent = net.sent ++ [ipFrame dstMac srcMac ip srcIp ipProtoTcp (TcpHdr.bytes ack)] ∧
    ack.has tcpSyn = true ∧ ack.has tcpAck = true ∧ swap32 ack.ack = swap32 tcp.seq + 1 ∧
    ack.srcPort = tcp.dstPort ∧ ack.dstPort = tcp.srcPort

/-- The socket has the address and port of the sender already, and no socket before it has the
same connection. -/
def Expects (net : Net) (i : Nat) (srcIp : Ip) (srcPort : Port) : Prop :=
  (net.sockets i).remoteIp = srcIp ∧ (net.sockets i).remotePort = srcPort ∧
    ∀ j, j < i → ¬ ((net.sockets j).inUse = true ∧ (net.sockets j).remoteIp = srcIp ∧
      (net.sockets j).remotePort = srcPort ∧
      (net.sockets j).localPort = (net.sockets i).localPort)

/-- A packet to this address leaves at once. -/
def Leaves (net : Net) (dstIp : Ip) : Prop :=
  ∃ iface dstMac, Wired net iface ∧ arpResolve net dstIp = some dstMac

section Accept

variable {net net' : Net} {i j : Nat}

/-- A frame leaves only by an interface that is up and has a driver. -/
theorem netSend_driver {frame : List Byte} (h : (netSend net frame).sent ≠ net.sent) :
    ∃ out, (net.netifs.find? fun i => i.up) = some out ∧
      0 ≤ out.driverIdx ∧ out.driverIdx < net.netDriverCount := by
  unfold netSend at h
  split at h
  · exact absurd rfl h
  · split at h
    · exact absurd rfl h
    · rename_i out hup
      split at h
      · exact absurd rfl h
      · exact ⟨out, hup, by omega, by omega⟩

/-- Asking for an address sends something shorter than a packet. -/
theorem arpRequest_short (net : Net) (ip : Ip) {frame : List Byte}
    (h : (arpRequest net ip).sent = net.sent ++ [frame]) :
    frame.length = ethHdrSize + arpHdrSize := by
  unfold arpRequest at h
  split at h
  · exact absurd (congrArg List.length h) (by simp)
  · rename_i iface rest hifs
    rcases netSend_cases net (ethHdr (Vector.replicate 6 0xFF) iface.mac 0x0608 ++
      arpBytes 0x0100 iface.mac iface.ipAddr (Vector.replicate 6 0) ip) with hsame | hsent
    · rw [hsame] at h
      exact absurd (congrArg List.length h) (by simp)
    · rw [hsent] at h
      rw [← List.singleton_inj.mp (List.append_cancel_left h), List.length_append, length_ethHdr]
      simp [arpBytes, arpHdrSize]

/-- A packet is sent only when it can leave at once. -/
theorem leaves_of_sent {dstIp : Ip} {protocol : Byte} {data frame : List Byte} {ret : Int}
    (hcall : ipSend net dstIp protocol data = some (net', ret))
    (hsent : net'.sent = net.sent ++ [frame]) (hlong : ethHdrSize + arpHdrSize < frame.length) :
    Leaves net dstIp := by
  unfold ipSend at hcall
  split at hcall
  · rw [← (Prod.mk.inj (Option.some.inj hcall)).1] at hsent
    exact absurd (congrArg List.length hsent) (by simp)
  · rename_i iface rest hifs
    split at hcall
    · exact absurd hcall (by simp)
    · dsimp only at hcall
      split at hcall
      · rw [← (Prod.mk.inj (Option.some.inj hcall)).1] at hsent
        have hshort := arpRequest_short net dstIp hsent
        omega
      · rename_i dstMac harp
        rw [← (Prod.mk.inj (Option.some.inj hcall)).1] at hsent
        have hmore : (netSend net (ethHdr dstMac iface.mac 0x0008 ++
            ((ipSendHdr iface.ipAddr dstIp protocol data.length).bytes ++ data))).sent ≠ net.sent := by
          rw [hsent]
          simp
        exact ⟨iface, dstMac, ⟨by rw [hifs]; rfl, netSend_driver hmore⟩, harp⟩

/-- The socket that a segment for a listening socket reaches is this one exactly when it has the
address and port of the sender. -/
theorem tcpSocket_listening_iff {port : Port} (h : Listening net i port) (srcIp : Ip)
    (srcPort : Port) : tcpSocket net srcIp srcPort port = some i ↔ Expects net i srcIp srcPort := by
  unfold tcpSocket Expects
  rw [List.find?_range_eq_some]
  simp only [Bool.and_eq_true, beq_iff_eq, List.mem_range, Bool.not_eq_true', Bool.and_eq_false_iff,
    beq_eq_false_iff_ne, h.bound]
  constructor
  · rintro ⟨⟨⟨⟨-, hip⟩, hport⟩, -⟩, -, hbefore⟩
    refine ⟨hip, hport, ?_⟩
    rintro j hj ⟨huse, hip', hport', hlocal⟩
    rcases hbefore j hj with ((hne | hne) | hne) | hne
    · exact absurd huse (by simp [hne])
    · exact hne hip'
    · exact hne hport'
    · exact hne hlocal
  · rintro ⟨hip, hport, hbefore⟩
    refine ⟨⟨⟨⟨h.inUse, hip⟩, hport⟩, trivial⟩, h.inTable, fun j hj => ?_⟩
    by_contra hmatch
    push Not at hmatch
    obtain ⟨⟨⟨huse, hip'⟩, hport'⟩, hlocal⟩ := hmatch
    exact hbefore j hj ⟨by simpa using huse, hip', hport', hlocal⟩

theorem brightsAccept_eq (hi : i < netMaxSockets) (huse : (net.sockets i).inUse = true) :
    brightsAccept net i =
      if (net.sockets i).tcpState = .established then
        (some ((net.sockets i).remoteIp, (net.sockets i).remotePort), (i : Int))
      else (none, -1) := by
  unfold brightsAccept
  rw [openSocket_eq hi huse]

/-- What `ip_handle` does with a segment. -/
theorem SynArrives.handle_eq {m : Mem} {len : Nat} {p : IpPayload} {port : Port}
    (h : SynArrives net m len p port) :
    ipHandle net m len =
      match tcpSocket net p.srcIp (swap16 (tcpHdrAt m p.data).srcPort) port with
      | none => some net
      | some j => tcpSegment net j (tcpHdrAt m p.data) m p.data p.len p.srcIp := by
  have hproto := h.protocol
  have hheader := h.header
  unfold ipHandle
  rw [h.accepted]
  dsimp only
  rw [hproto, if_neg (by decide), if_neg (by decide), if_pos rfl]
  unfold tcpHandle
  rw [if_neg (by omega)]
  dsimp only
  exact h.dstPort ▸ rfl

/-- A SYN answered: the socket is established, and the answer was sent. -/
theorem syn_answered {srcIp : Ip} {tcp : TcpHdr} (hsyn : tcp.has tcpSyn = true)
    (hleaves : Leaves net srcIp) (i : Nat) (m : Mem) (data len : Nat) :
    ∃ net', tcpSegment net i tcp m data len srcIp = some net' ∧ SynAcked net net' srcIp tcp ∧
      net'.sockets i = afterSyn (net.sockets i) (swap32 tcp.seq) := by
  obtain ⟨iface, dstMac, hw, harp⟩ := hleaves
  refine ⟨_, tcpSegment_syn hw harp hsyn i m data len, ⟨_, _, _, _, rfl, ?_, ?_, ?_, rfl, rfl⟩, ?_⟩
  · show (tcpSyn ||| tcpAck) &&& tcpSyn != 0
    decide
  · show (tcpSyn ||| tcpAck) &&& tcpAck != 0
    decide
  · show swap32 (swap32 (swap32 tcp.seq + 1)) = _
    rw [swap32_swap32]
  · show Function.update net.sockets i _ i = _
    rw [Function.update_self]

/-- A SYN changes the socket it reaches and no other. -/
theorem tcpSegment_syn_sockets {m : Mem} {data len : Nat} {srcIp : Ip} {tcp : TcpHdr}
    (hsyn : tcp.has tcpSyn = true) (hcall : tcpSegment net j tcp m data len srcIp = some net') :
    net'.sockets = Function.update net.sockets j (afterSyn (net.sockets j) (swap32 tcp.seq)) ∧
      ∀ frame, net'.sent = net.sent ++ [frame] → ethHdrSize + arpHdrSize < frame.length →
        Leaves net srcIp := by
  unfold tcpSegment at hcall
  dsimp only at hcall
  rw [if_pos hsyn] at hcall
  refine ⟨tcpReply_sockets hcall, fun frame hsent hlong => ?_⟩
  obtain ⟨⟨mid, ret⟩, hsend, hmid⟩ := Option.map_eq_some_iff.mp hcall
  obtain rfl : mid = net' := hmid
  obtain ⟨iface, dstMac, hw, harp⟩ := leaves_of_sent hsend hsent hlong
  exact ⟨iface, dstMac, ⟨hw.first, hw.driver⟩, harp⟩

/--
**When a passive open works**: a SYN for the port of a listening socket is answered with SYN and
ACK, and `accept` then returns its sender, exactly when the socket has the address and port of the
sender already, no socket before it has the same connection, and the answer can leave.
-/
theorem passive_open_iff {port : Port} (hlisten : Listening net i port) {m : Mem} {len : Nat}
    {p : IpPayload} (harrives : SynArrives net m len p port) :
    (∃ net', ipHandle net m len = some net' ∧
      SynAcked net net' p.srcIp (tcpHdrAt m p.data) ∧
      brightsAccept net' i =
        (some (p.srcIp, swap16 (tcpHdrAt m p.data).srcPort), (i : Int))) ↔
      Expects net i p.srcIp (swap16 (tcpHdrAt m p.data).srcPort) ∧ Leaves net p.srcIp := by
  rw [harrives.handle_eq, ← tcpSocket_listening_iff hlisten]
  constructor
  · rintro ⟨net', hcall, ⟨dstMac, srcMac, ip, ack, hsent, -⟩, haccept⟩
    cases hsock : tcpSocket net p.srcIp (swap16 (tcpHdrAt m p.data).srcPort) port with
    | none =>
        rw [hsock] at hcall
        rw [← Option.some.inj hcall] at hsent
        exact absurd (congrArg List.length hsent) (by simp)
    | some j =>
        rw [hsock] at hcall
        obtain ⟨hsockets, hleaves⟩ := tcpSegment_syn_sockets harrives.syn hcall
        refine ⟨?_, hleaves _ hsent ?_⟩
        · by_contra hother
          have hne : i ≠ j := fun heq => hother (by rw [heq])
          have hsame : net'.sockets i = net.sockets i := by
            rw [hsockets, Function.update_of_ne hne]
          rw [brightsAccept_eq hlisten.inTable (by rw [hsame]; exact hlisten.inUse), hsame,
            hlisten.listens] at haccept
          exact absurd haccept (by simp)
        · rw [length_ipFrame, length_tcpHdr]
          decide
  · rintro ⟨hsock, hleaves⟩
    obtain ⟨net', hcall, hacked, hafter⟩ := syn_answered harrives.syn hleaves i m p.data
      p.len
    refine ⟨net', by rw [hsock]; exact hcall, hacked, ?_⟩
    obtain ⟨hip, hport, -⟩ := tcpSocket_fields hsock
    have huse : (net'.sockets i).inUse = true := by
      rw [hafter]
      exact hlisten.inUse
    rw [brightsAccept_eq hlisten.inTable huse, hafter]
    simp [afterSyn, hip, hport]

end Accept

/-! ### A listening socket on the local network -/

/-- Host 2 has made a stream socket, bound it to port 8080 and called `listen`. -/
def lanListening : Net :=
  (brightsListen (brightsBind (brightsSocket (lanHost 2 1) 1 1).1 2 2 8080).1 2).1

/-- The SYN that host 1 sends from port 49152. -/
def lanSyn : TcpHdr :=
  { srcPort := swap16 49152, dstPort := swap16 8080, seq := swap32 1000, ack := 0, dataOff := 0x50,
    flags := tcpSyn, window := 0xFFFF, checksum := 0, urgent := 0 }

def lanSynMem : Mem :=
  onto (ipFrame (Vector.replicate 6 0x02) (Vector.replicate 6 0x04) 1 2 ipProtoTcp lanSyn.bytes)
    fun _ => 0

def lanSynPayload : IpPayload := { protocol := ipProtoTcp, data := 34, len := tcpWireLen, srcIp := 1 }

theorem lanSyn_header : tcpHdrAt lanSynMem 34 = lanSyn :=
  tcpHdrAt_bytes (ipFrame_data (holds_onto _ _))

/-- The SYN arrives at every host with the address of host 2. -/
theorem lanSyn_arrives {net : Net} (hfirst : net.netifs.head? = some (lanIf 2)) :
    SynArrives net lanSynMem 54 lanSynPayload 8080 := by
  refine ⟨?_, rfl, by decide, ?_, ?_⟩
  · exact ipAccept_frame hfirst (holds_onto _ _) (by decide) (by rw [length_tcpHdr]; decide)
  · show (tcpHdrAt lanSynMem 34).has tcpSyn = true
    rw [lanSyn_header]
    decide
  · show swap16 (tcpHdrAt lanSynMem 34).dstPort = 8080
    rw [lanSyn_header]
    decide

/-- Host 2 knows host 1, and does not answer its SYN; `accept` fails. -/
theorem passive_open_unanswered :
    Listening lanListening 2 8080 ∧ SynArrives lanListening lanSynMem 54 lanSynPayload 8080 ∧
    Leaves lanListening 1 ∧
    ¬ ∃ net', ipHandle lanListening lanSynMem 54 = some net' ∧
      (SynAcked lanListening net' 1 lanSyn ∨ brightsAccept net' 2 = (some (1, 49152), 2)) := by
  have harrives : SynArrives lanListening lanSynMem 54 lanSynPayload 8080 := lanSyn_arrives rfl
  have hsrc : swap16 (tcpHdrAt lanSynMem lanSynPayload.data).srcPort = 49152 := by
    show swap16 (tcpHdrAt lanSynMem 34).srcPort = 49152
    rw [lanSyn_header]
    decide
  have hsock : tcpSocket lanListening lanSynPayload.srcIp 49152 8080 = none := by
    decide +kernel
  have hhandle : ipHandle lanListening lanSynMem 54 = some lanListening := by
    rw [harrives.handle_eq, hsrc, hsock]
  refine ⟨⟨by decide, by decide +kernel, by decide +kernel, by decide +kernel⟩, harrives,
    ⟨lanIf 2, Vector.replicate 6 0x04, ⟨rfl, (lanHost_wired 2 1).driver⟩, (lanHost_route 2 1).arp⟩,
    ?_⟩
  rintro ⟨net', hnet, hacked | haccept⟩
  · obtain ⟨dstMac, srcMac, ip, ack, hsent, -⟩ := hacked
    rw [hhandle] at hnet
    rw [← Option.some.inj hnet] at hsent
    exact absurd (congrArg List.length hsent) (by simp)
  · rw [hhandle] at hnet
    rw [← Option.some.inj hnet] at haccept
    have hfails : (brightsAccept lanListening 2).2 = -1 := by decide +kernel
    rw [haccept] at hfails
    exact absurd hfails (by decide)

/-- With the address and port of host 1 in the socket the SYN is answered. -/
def lanExpecting : Net :=
  lanListening.setSocket 2
    { lanListening.sockets 2 with remoteIp := 1, remotePort := 49152 }

theorem passive_open_expected :
    Listening lanExpecting 2 8080 ∧
    ∃ net', ipHandle lanExpecting lanSynMem 54 = some net' ∧
      SynAcked lanExpecting net' 1 (tcpHdrAt lanSynMem 34) ∧
      brightsAccept net' 2 = (some (1, swap16 (tcpHdrAt lanSynMem 34).srcPort), 2) := by
  have hlisten : Listening lanExpecting 2 8080 :=
    ⟨by decide, by decide +kernel, by decide +kernel, by decide +kernel⟩
  have hport : swap16 (tcpHdrAt lanSynMem 34).srcPort = 49152 := by
    rw [lanSyn_header]
    decide
  have hexpects : Expects lanExpecting 2 1 49152 := by
    rw [← tcpSocket_listening_iff hlisten]
    decide +kernel
  refine ⟨hlisten, (passive_open_iff hlisten (lanSyn_arrives rfl)).mpr ⟨?_, ?_⟩⟩
  · show Expects lanExpecting 2 1 (swap16 (tcpHdrAt lanSynMem 34).srcPort)
    rw [hport]
    exact hexpects
  · exact ⟨lanIf 2, Vector.replicate 6 0x04, ⟨rfl, (lanHost_wired 2 1).driver⟩,
      (lanHost_route 2 1).arp⟩

end BrightS
