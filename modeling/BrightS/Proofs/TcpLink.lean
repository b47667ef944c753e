/-
Two hosts of this stack and the segments between them.

A `Link` has two hosts and the frames that are on their way in each direction, each
remembered with the call that sent it.  Frames are delivered in any order.

`tcp_handle` asks for the ACK flag before it asks for data or for the end of the stream, and
everything this stack sends after the handshake carries ACK: data is dropped, and a closed
connection stays established at the other end.
-/
import BrightS.Lib.Runs
import BrightS.Proofs.NetBounds

namespace BrightS

open Bytes Runs

/-! ### Links -/

inductive Side where
  | a | b
  deriving DecidableEq, Repr

def Side.other : Side → Side
  | .a => .b
  | .b => .a

@[simp] theorem Side.other_other (s : Side) : s.other.other = s := by cases s <;> rfl

@[simp] theorem Side.other_ne (s : Side) : s.other ≠ s := by cases s <;> simp [Side.other]

/-- What a frame was sent for. -/
inductive Origin where
  | data (payload : List Byte)
  | fin
  | control

structure Link where
  hosts : Side → Net
  /-- The frames on their way from each side. -/
  flight : Side → List (List Byte × Origin)

/-- A host has made a call, and what it sent is on its way. -/
def Link.after (l : Link) (s : Side) (net : Net) (origin : Origin) : Link where
  hosts := Function.update l.hosts s { net with sent := [] }
  flight := Function.update l.flight s (l.flight s ++ net.sent.map fun frame => (frame, origin))

/-- The frame with number `k` arrives. -/
def Link.take (l : Link) (s : Side) (k : Nat) : Link :=
  { l with flight := Function.update l.flight s ((l.flight s).eraseIdx k) }

inductive LinkCall where
  | deliver (side : Side) (k : Nat) (behind : Mem)
  | send (side : Side) (sockfd : Int) (buf : List Byte)
  | recv (side : Side) (sockfd : Int) (len : Nat)
  | close (side : Side) (sockfd : Int)

/-- A call on a stream socket whose peer can be reached sends a segment. -/
def segmentOrigin (net : Net) (sockfd : Int) (origin : Origin) : Origin :=
  match openSocket net sockfd with
  | none => .control
  | some i =>
      if (net.sockets i).type = 1 ∧ (arpResolve net (net.sockets i).remoteIp).isSome then origin
      else .control

def Link.next (l : Link) : LinkCall → Option Link
  | .deliver side k behind =>
      match (l.flight side.other)[k]? with
      | none => some l
      | some frame =>
          (netRecv (l.hosts side) (onto frame.1 behind) frame.1.length).map fun net =>
            (l.take side.other k).after side net .control
  | .send side sockfd buf =>
      (brightsSend (l.hosts side) sockfd buf).map fun r =>
        l.after side r.1 (segmentOrigin (l.hosts side) sockfd (.data buf))
  | .recv side sockfd len =>
      some (l.after side (brightsRecv (l.hosts side) sockfd len).1 .control)
  | .close side sockfd =>
      (brightsClose (l.hosts side) sockfd).map fun r =>
        l.after side r.1 (segmentOrigin (l.hosts side) sockfd .fin)

def Link.step (l : Link) (c : LinkCall) (l' : Link) : Prop := l.next c = some l'

/-- Nothing is on its way. -/
structure Link.Quiet (l : Link) : Prop where
  flight : ∀ s, l.flight s = []
  sent : ∀ s, (l.hosts s).sent = []

/-! ### What is sent -/

/-- The frame of a bare TCP header. -/
def TcpFrame (frame : List Byte) (tcp : TcpHdr) : Prop :=
  ∃ dstMac srcMac srcIp dstIp, frame = ipFrame dstMac srcMac srcIp dstIp ipProtoTcp tcp.bytes

/-- The header a frame was sent with, by its origin. -/
def SentAs (frame : List Byte) : Origin → Prop
  | .data _ => ∃ sock, TcpFrame frame (socketHeader sock (tcpAck ||| tcpPsh))
  | .fin => ∃ sock, TcpFrame frame (socketHeader sock (tcpFin ||| tcpAck))
  | .control => True

/-- To a known destination nothing but the packet is sent. -/
theorem ipSend_known {net net' : Net} {dstIp : Ip} {protocol : Byte} {data : List Byte} {ret : Int}
    (harp : (arpResolve net dstIp).isSome) (hcall : ipSend net dstIp protocol data = some (net', ret)) :
    net'.sockets = net.sockets ∧ ∀ frame ∈ net'.sent, frame ∈ net.sent ∨
      ∃ dstMac srcMac srcIp, frame = ipFrame dstMac srcMac srcIp dstIp protocol data := by
  obtain ⟨dstMac, hmac⟩ := Option.isSome_iff_exists.mp harp
  unfold ipSend at hcall
  split at hcall
  · obtain ⟨rfl, -⟩ := Prod.mk.inj (Option.some.inj hcall)
    exact ⟨rfl, fun frame hframe => .inl hframe⟩
  · rename_i iface rest hifs
    split at hcall
    · exact absurd hcall (by simp)
    · rw [hmac] at hcall
      dsimp only at hcall
      obtain ⟨hnet, -⟩ := Prod.mk.inj (Option.some.inj hcall)
      rcases netSend_cases net (ethHdr dstMac iface.mac 0x0008 ++
        ((ipSendHdr iface.ipAddr dstIp protocol data.length).bytes ++ data)) with hsame | hsent
      · rw [hsame] at hnet
        rw [← hnet]
        exact ⟨rfl, fun frame hframe => .inl hframe⟩
      · rw [hsent] at hnet
        rw [← hnet]
        refine ⟨rfl, fun frame hframe => ?_⟩
        rcases List.mem_append.mp hframe with hold | hnew
        · exact .inl hold
        · exact .inr ⟨dstMac, iface.mac, iface.ipAddr, List.mem_singleton.mp hnew⟩

/-- Everything on its way was sent as its origin says. -/
structure FlightOk (l : Link) : Prop where
  sentAs : ∀ s, ∀ frame ∈ l.flight s, SentAs frame.1 frame.2
  sent : ∀ s, (l.hosts s).sent = []

theorem FlightOk.after {l : Link} (h : FlightOk l) {s : Side} {net : Net} {origin : Origin}
    (hsent : ∀ frame ∈ net.sent, SentAs frame origin) : FlightOk (l.after s net origin) := by
  constructor
  · intro t frame hframe
    dsimp only [Link.after] at hframe
    by_cases hts : t = s
    · rw [hts, Function.update_self] at hframe
      rcases List.mem_append.mp hframe with hold | hnew
      · exact h.sentAs s frame hold
      · obtain ⟨f, hf, rfl⟩ := List.mem_map.mp hnew
        exact hsent f hf
    · rw [Function.update_of_ne hts] at hframe
      exact h.sentAs t frame hframe
  · intro t
    by_cases hts : t = s
    · simp [Link.after, hts]
    · simp only [Link.after, Function.update_of_ne hts]
      exact h.sent t

theorem FlightOk.take {l : Link} (h : FlightOk l) (s : Side) (k : Nat) : FlightOk (l.take s k) := by
  refine ⟨fun t frame hframe => ?_, h.sent⟩
  dsimp only [Link.take] at hframe
  by_cases hts : t = s
  · rw [hts, Function.update_self] at hframe
    exact h.sentAs s frame (List.mem_of_mem_eraseIdx hframe)
  · rw [Function.update_of_ne hts] at hframe
    exact h.sentAs t frame hframe

/-- A segment call sends a segment if its origin says so. -/
theorem sentAs_segment {net net' : Net} {sockfd : Int} {i : Nat} {origin : Origin} {flags : Byte}
    {ret : Int} (hquiet : net.sent = []) (hopen : openSocket net sockfd = some i)
    (horigin : ∀ frame, TcpFrame frame (socketHeader (net.sockets i) flags) → SentAs frame origin)
    (hcall : ipSend net (net.sockets i).remoteIp ipProtoTcp
      (socketHeader (net.sockets i) flags).bytes = some (net', ret)) :
    ∀ frame ∈ net'.sent, SentAs frame (segmentOrigin net sockfd origin) := by
  intro frame hframe
  unfold segmentOrigin
  rw [hopen]
  dsimp only
  split
  · rename_i hstream
    rcases (ipSend_known hstream.2 hcall).2 frame hframe with hold | ⟨dstMac, srcMac, srcIp, heq⟩
    · rw [hquiet] at hold
      exact absurd hold (by simp)
    · exact horigin frame ⟨dstMac, srcMac, srcIp, _, heq⟩
  · trivial

theorem sentAs_of_quiet {net : Net} (hquiet : net.sent = []) (origin : Origin) :
    ∀ frame ∈ net.sent, SentAs frame origin := by
  intro frame hframe
  rw [hquiet] at hframe
  exact absurd hframe (by simp)

theorem brightsSend_sentAs {net net' : Net} {sockfd : Int} {buf : List Byte} {ret : Int}
    (hquiet : net.sent = []) (hcall : brightsSend net sockfd buf = some (net', ret)) :
    ∀ frame ∈ net'.sent, SentAs frame (segmentOrigin net sockfd (.data buf)) := by
  have hsame : ∀ {r : Int}, some (net, r) = some (net', ret) →
      ∀ frame ∈ net'.sent, SentAs frame (segmentOrigin net sockfd (.data buf)) := by
    intro r heq
    rw [← (Prod.mk.inj (Option.some.inj heq)).1]
    exact sentAs_of_quiet hquiet _
  unfold brightsSend at hcall
  cases hopen : openSocket net sockfd with
  | none =>
      rw [hopen] at hcall
      exact hsame hcall
  | some i =>
      rw [hopen] at hcall
      dsimp only at hcall
      by_cases hstream : (net.sockets i).type = 1
      · rw [if_neg (by omega), if_pos hstream] at hcall
        split at hcall
        · exact hsame hcall
        · obtain ⟨r, hsend, hr⟩ := Option.map_eq_some_iff.mp hcall
          have hdata : ∀ frame, TcpFrame frame (socketHeader (net.sockets i) (tcpAck ||| tcpPsh)) →
              SentAs frame (.data buf) := fun frame hframe => ⟨_, hframe⟩
          have hframes := sentAs_segment hquiet hopen hdata hsend
          split at hr
          · rw [← (Prod.mk.inj hr).1]
            exact hframes
          · rw [← (Prod.mk.inj hr).1]
            exact hframes
      · intro frame _
        unfold segmentOrigin
        rw [hopen]
        dsimp only
        rw [if_neg fun h => hstream h.1]
        trivial

theorem brightsClose_sentAs {net net' : Net} {sockfd : Int} {ret : Int}
    (hquiet : net.sent = []) (hcall : brightsClose net sockfd = some (net', ret)) :
    ∀ frame ∈ net'.sent, SentAs frame (segmentOrigin net sockfd .fin) := by
  unfold brightsClose at hcall
  cases hopen : openSocket net sockfd with
  | none =>
      rw [hopen] at hcall
      rw [← (Prod.mk.inj (Option.some.inj hcall)).1]
      exact sentAs_of_quiet hquiet _
  | some i =>
      rw [hopen] at hcall
      obtain ⟨mid, hmid, hr⟩ := Option.map_eq_some_iff.mp hcall
      have hsent : net'.sent = mid.sent := by rw [← (Prod.mk.inj hr).1]; rfl
      rw [hsent]
      split at hmid
      · obtain ⟨r, hsend, hr'⟩ := Option.map_eq_some_iff.mp hmid
        rw [← hr']
        exact sentAs_segment hquiet hopen (fun frame hframe => ⟨_, hframe⟩) hsend
      · rw [← Option.some.inj hmid]
        exact sentAs_of_quiet hquiet _

theorem FlightOk.next {l l' : Link} (h : FlightOk l) {c : LinkCall} (hnext : l.next c = some l') :
    FlightOk l' := by
  cases c with
  | deliver side k behind =>
      unfold Link.next at hnext
      dsimp only at hnext
      split at hnext
      · rw [← Option.some.inj hnext]
        exact h
      · obtain ⟨net, -, hl'⟩ := Option.map_eq_some_iff.mp hnext
        rw [← hl']
        exact (h.take side.other k).after fun _ _ => trivial
  | send side sockfd buf =>
      obtain ⟨r, hcall, hl'⟩ := Option.map_eq_some_iff.mp hnext
      rw [← hl']
      exact h.after (brightsSend_sentAs (h.sent side) hcall)
  | recv side sockfd len =>
      rw [← Option.some.inj hnext]
      exact h.after fun _ _ => trivial
  | close side sockfd =>
      obtain ⟨r, hcall, hl'⟩ := Option.map_eq_some_iff.mp hnext
      rw [← hl']
      exact h.after (brightsClose_sentAs (h.sent side) hcall)

/-! ### What arrives -/

/-- A frame reaches socket `j` through `tcp_handle`, as a segment with this header. -/
structure Reaches (net : Net) (m : Mem) (len : Nat) (tcp : TcpHdr) (j : Nat) : Prop where
  isIp : swap16 (load16 m 12) = 0x0800
  handled : ∃ p, ipAccept net m len = some p ∧ p.protocol = ipProtoTcp ∧ tcpHdrSize ≤ p.len ∧
    tcp = tcpHdrAt m p.data ∧
    tcpSocket net p.srcIp (swap16 tcp.srcPort) (swap16 tcp.dstPort) = some j

theorem Reaches.netRecv_eq {net : Net} {m : Mem} {len j : Nat} {tcp : TcpHdr}
    (h : Reaches net m len tcp j) :
    ∃ data n srcIp, netRecv net m len = tcpSegment net j tcp m data n srcIp := by
  obtain ⟨p, haccept, hproto, hlen, htcp, hsock⟩ := h.handled
  refine ⟨p.data, p.len, p.srcIp, ?_⟩
  have hlong := (ipAccept_iff.mp haccept).2.1
  have hsize : ethHdrSize = 14 := rfl
  unfold netRecv
  rw [if_neg (by omega)]
  dsimp only
  rw [if_neg (by rw [h.isIp]; decide), if_pos h.isIp]
  unfold ipHandle
  rw [haccept]
  dsimp only
  rw [if_neg (by rw [hproto]; decide), if_neg (by rw [hproto]; decide), if_pos hproto]
  unfold tcpHandle
  rw [if_neg (by omega), ← htcp]
  dsimp only
  rw [hsock]

/-- The header of a frame that arrives is the one it was sent with. -/
theorem Reaches.header {net : Net} {m : Mem} {len j : Nat} {tcp sent : TcpHdr} {frame : List Byte}
    (h : Reaches net m len tcp j) (hm : Holds m 0 frame) (hframe : TcpFrame frame sent) :
    tcp = sent := by
  obtain ⟨dstMac, srcMac, srcIp, dstIp, rfl⟩ := hframe
  obtain ⟨p, haccept, -, -, htcp, -⟩ := h.handled
  have hip : ipHdrAt m 14 = ipSendHdr srcIp dstIp ipProtoTcp sent.bytes.length := by
    apply ipHdrAt_bytes
    have hright := hm.right
    rw [length_ethHdr, Nat.zero_add] at hright
    exact hright.left
  have hihl : ipIhl m = 20 := by
    have hver : m 14 = 0x45#8 := congrArg IpHdr.verIhl hip
    unfold ipIhl
    rw [hver]
    decide
  have hdata : p.data = 34 := by
    rw [(ipAccept_iff.mp haccept).1]
    show 14 + ipIhl m = 34
    rw [hihl]
  rw [htcp, hdata]
  exact tcpHdrAt_bytes (ipFrame_data hm)

/-- A frame of this stack with a segment for socket `j`. -/
theorem reaches_frame {net : Net} {iface : NetIf} (hfirst : net.netifs.head? = some iface)
    {dstMac srcMac : Mac} {srcIp : Ip} {tcp : TcpHdr} {m : Mem} {len j : Nat}
    (hm : Holds m 0 (ipFrame dstMac srcMac srcIp iface.ipAddr ipProtoTcp tcp.bytes))
    (hlen : ethHdrSize + ipHdrSize ≤ len)
    (hsock : tcpSocket net srcIp (swap16 tcp.srcPort) (swap16 tcp.dstPort) = some j) :
    Reaches net m len tcp j := by
  have haccept := ipAccept_frame hfirst hm hlen (by rw [length_tcpHdr]; decide)
  refine ⟨ipFrame_type hm, _, haccept, rfl, ?_, (tcpHdrAt_bytes (ipFrame_data hm)).symm, hsock⟩
  rw [length_tcpHdr]
  dsimp only
  decide

/-- A segment of this stack that is not part of a handshake changes nothing but a socket that is
still connecting. -/
theorem Reaches.ack_eq {net : Net} {m : Mem} {len j : Nat} {tcp : TcpHdr}
    (h : Reaches net m len tcp j) (hsyn : tcp.has tcpSyn = false) (hack : tcp.has tcpAck = true) :
    netRecv net m len = some (net.setSocket j (afterAck (net.sockets j) (swap32 tcp.seq))) := by
  obtain ⟨data, n, srcIp, heq⟩ := h.netRecv_eq
  rw [heq, tcpSegment_ack hsyn hack]

/-- After the delivery socket `j` has these bytes. -/
def Appended (l : Link) (side : Side) (k : Nat) (behind : Mem) (j : Nat) (bytes : List Byte) : Prop :=
  ∃ l', l.next (.deliver side k behind) = some l' ∧
    ((l'.hosts side).sockets j).recv.bytes =
      ((l.hosts side).sockets j).recv.bytes ++ bytes.take ((l.hosts side).sockets j).recv.avail

/-- After the delivery socket `j` is closing. -/
def Closes (l : Link) (side : Side) (k : Nat) (behind : Mem) (j : Nat) : Prop :=
  ∃ l', l.next (.deliver side k behind) = some l' ∧
    ((l'.hosts side).sockets j).tcpState = .closing

theorem deliver_eq {l : Link} {side : Side} {k : Nat} {behind : Mem} {frame : List Byte × Origin}
    (hk : (l.flight side.other)[k]? = some frame) {net : Net}
    (hrecv : netRecv (l.hosts side) (onto frame.1 behind) frame.1.length = some net) :
    l.next (.deliver side k behind) = some ((l.take side.other k).after side net .control) := by
  unfold Link.next
  dsimp only
  rw [hk]
  dsimp only
  rw [hrecv]
  rfl

@[simp] theorem after_sockets (l : Link) (s : Side) (net : Net) (origin : Origin) :
    ((l.after s net origin).hosts s).sockets = net.sockets := by
  simp [Link.after]

theorem flightOk_of_run {l₀ l : Link} {calls : List LinkCall} (hquiet : l₀.Quiet)
    (hrun : Executes Link.step l₀ calls l) : FlightOk l := by
  refine hrun.invariant (fun l c l' h hnext => h.next hnext) ⟨fun s frame hframe => ?_, hquiet.sent⟩
  rw [hquiet.flight s] at hframe
  exact absurd hframe (by simp)

/-- The delivery of an acknowledgement to an established socket goes through and leaves it as it
is. -/
theorem Reaches.deliver_ack {l : Link} {side : Side} {k j : Nat} {behind : Mem}
    {frame : List Byte} {origin : Origin} {tcp : TcpHdr}
    (h : Reaches (l.hosts side) (onto frame behind) frame.length tcp j)
    (hk : (l.flight side.other)[k]? = some (frame, origin))
    (hsyn : tcp.has tcpSyn = false) (hack : tcp.has tcpAck = true)
    (hstate : ((l.hosts side).sockets j).tcpState = .established) :
    ∃ l', l.next (.deliver side k behind) = some l' ∧
      (l'.hosts side).sockets j = (l.hosts side).sockets j := by
  have hsame : afterAck ((l.hosts side).sockets j) (swap32 tcp.seq) =
      (l.hosts side).sockets j := by
    unfold afterAck
    rw [if_neg (by rw [hstate]; decide)]
  have hrecv := h.ack_eq hsyn hack
  rw [hsame, setSocket_same] at hrecv
  exact ⟨_, deliver_eq hk hrecv, by rw [after_sockets]⟩

/--
**Nothing that is sent on an established connection has an effect.**  In every state of every
run from a quiet link, a data segment that reaches an established socket is appended exactly
when it has no bytes or the buffer no room, whatever its sequence number; and the segment of a
close never makes the socket a closing one.
-/
theorem tcp_delivery_iff {l₀ l : Link} {calls : List LinkCall} (hquiet : l₀.Quiet)
    (hrun : Executes Link.step l₀ calls l) (side : Side) (k : Nat) (behind : Mem)
    {frame : List Byte} {origin : Origin} (hk : (l.flight side.other)[k]? = some (frame, origin))
    {tcp : TcpHdr} {j : Nat} (hreach : Reaches (l.hosts side) (onto frame behind) frame.length tcp j)
    (hstate : ((l.hosts side).sockets j).tcpState = .established) :
    (∀ payload, origin = .data payload → (Appended l side k behind j payload ↔
      payload = [] ∨ ((l.hosts side).sockets j).recv.avail = 0)) ∧
    (origin = .fin → ¬ Closes l side k behind j) := by
  have hsent := (flightOk_of_run hquiet hrun).sentAs side.other _ (List.mem_of_getElem? hk)
  have hm := holds_onto frame behind
  constructor
  · intro payload horigin
    rw [horigin] at hsent
    obtain ⟨sock, hframe⟩ := hsent
    have htcp := hreach.header hm hframe
    obtain ⟨l', hl', hsocket⟩ := hreach.deliver_ack hk
      (by rw [htcp, has_socketHeader]; decide) (by rw [htcp, has_socketHeader]; decide) hstate
    have hiff : Appended l side k behind j payload ↔
        payload.take ((l.hosts side).sockets j).recv.avail = [] := by
      constructor
      · intro ⟨l'', hl'', hbytes⟩
        rw [Option.some.inj (hl''.symm.trans hl'), hsocket] at hbytes
        exact List.self_eq_append_right.mp hbytes
      · intro hnone
        exact ⟨l', hl', by rw [hsocket, hnone, List.append_nil]⟩
    rw [hiff, List.take_eq_nil_iff]
    exact or_comm
  · intro horigin hcloses
    rw [horigin] at hsent
    obtain ⟨sock, hframe⟩ := hsent
    have htcp := hreach.header hm hframe
    obtain ⟨l', hl', hsocket⟩ := hreach.deliver_ack hk
      (by rw [htcp, has_socketHeader]; decide) (by rw [htcp, has_socketHeader]; decide) hstate
    obtain ⟨l'', hl'', hclosing⟩ := hcloses
    rw [Option.some.inj (hl''.symm.trans hl'), hsocket, hstate] at hclosing
    exact absurd hclosing (by decide)

/-- The two hosts of a local network, which have a stream between their sockets 1. -/
def lanLink : Link where
  hosts s := if s = .a then lanHost 1 2 else lanHost 2 1
  flight _ := []

theorem lanLink_quiet : lanLink.Quiet := by
  refine ⟨fun s => rfl, fun s => ?_⟩
  cases s <;> rfl

theorem lanHost_connected : Connected (lanHost 1 2) (lanHost 2 1) (lanIf 1) (lanIf 2) 1 1 :=
  ⟨by decide, rfl, rfl, rfl, rfl, by decide +kernel⟩

/-- The segment of `lanLink` that carries three bytes. -/
def lanFrame : List Byte :=
  dataFrame (lanHost 1 2) (lanIf 1) (lanIf 2) (Vector.replicate 6 0x04) 1

/-- `lanLink` after host a has sent three bytes. -/
def lanSent : Link :=
  lanLink.after .a (({ lanHost 1 2 with sent := [lanFrame] } : Net).setSocket 1
    { (lanHost 1 2).sockets 1 with tcpSeq := 1003 }) (.data [7, 8, 9])

theorem lanSent_run : Executes Link.step lanLink [.send .a 1 [7, 8, 9]] lanSent := by
  refine .cons ?_ (.nil _)
  have hcall : brightsSend (lanLink.hosts .a) 1 [7, 8, 9] = _ :=
    brightsSend_eq (lanHost_route 1 2) lanHost_connected [7, 8, 9]
  unfold Link.step Link.next
  dsimp only
  rw [hcall]
  rfl

theorem lanSent_reaches (behind : Mem) : Reaches (lanSent.hosts .b) (onto lanFrame behind)
    lanFrame.length (socketHeader ((lanHost 1 2).sockets 1) (tcpAck ||| tcpPsh)) 1 := by
  have hlen : lanFrame.length = 54 := by
    rw [lanFrame, dataFrame, length_ipFrame, length_tcpHdr]
    rfl
  have hfirst : (lanSent.hosts .b).netifs.head? = some (lanIf 2) := rfl
  exact reaches_frame hfirst (holds_onto lanFrame behind) (by rw [hlen]; decide)
    (by decide +kernel)

/-- The three bytes arrive with the number that is expected, at a socket with room. -/
theorem tcp_delivery_lan :
    Executes Link.step lanLink [.send .a 1 [7, 8, 9]] lanSent ∧
      (Appended lanSent .b 0 (fun _ => 0) 1 [7, 8, 9] ↔
        ([7, 8, 9] : List Byte) = [] ∨ ((lanSent.hosts .b).sockets 1).recv.avail = 0) :=
  ⟨lanSent_run, (tcp_delivery_iff lanLink_quiet lanSent_run .b 0 (fun _ => 0) rfl
    (lanSent_reaches _) rfl).1 [7, 8, 9] rfl⟩

/-- They are not appended. -/
theorem tcp_data_lost :
    ∃ l tcp, Executes Link.step lanLink [.send .a 1 [7, 8, 9]] l ∧
      (l.flight .a)[0]? = some (lanFrame, .data [7, 8, 9]) ∧
      Reaches (l.hosts .b) (onto lanFrame fun _ => 0) lanFrame.length tcp 1 ∧
      ((l.hosts .b).sockets 1).tcpState = .established ∧
      swap32 tcp.seq = ((l.hosts .b).sockets 1).tcpAck ∧
      ((l.hosts .b).sockets 1).recv.avail = 4096 ∧
      ¬ Appended l .b 0 (fun _ => 0) 1 [7, 8, 9] := by
  refine ⟨lanSent, _, lanSent_run, rfl, lanSent_reaches _, rfl, by decide +kernel,
    by decide +kernel, fun happended => ?_⟩
  have hk : (lanSent.flight Side.b.other)[0]? = some (lanFrame, .data [7, 8, 9]) := rfl
  obtain ⟨l', hl', hsocket⟩ := (lanSent_reaches fun _ => 0).deliver_ack hk (by decide +kernel)
    (by decide +kernel) rfl
  obtain ⟨l'', hl'', hbytes⟩ := happended
  rw [Option.some.inj (hl''.symm.trans hl'), hsocket] at hbytes
  exact absurd (List.self_eq_append_right.mp hbytes) (by decide +kernel)

end BrightS
