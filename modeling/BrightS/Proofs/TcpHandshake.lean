/-
The opening of a connection between two hosts of this stack.

`SynOnly` holds right after `tcp_connect`: the two sockets know each other, and what is on
its way between them are segments with SYN.  `tcp_handle` answers every one of them with
another one and counts the SYN in its acknowledgement, while the sender does not count it
in its sequence number.  So deliveries keep `SynOnly`, there is always a next one, and a
socket that was reached expects a number that its peer never sends.
-/
import BrightS.Proofs.TcpLink

namespace BrightS

open Bytes Runs

/-! ### Connections -/

/-- The two ends of a connection: the socket and the interface of each, and the address that it
has for the other in its ARP cache. -/
structure Ends where
  sock : Side → Nat
  iface : Side → NetIf
  mac : Side → Mac

/-- The socket at one end. -/
def Link.socketAt (l : Link) (e : Ends) (s : Side) : Socket := (l.hosts s).sockets (e.sock s)

/-- A segment with SYN, from one end to the other. -/
structure SynFrame (l : Link) (e : Ends) (s : Side) (frame : List Byte) (tcp : TcpHdr) : Prop where
  frame : frame = ipFrame (e.mac s) (e.iface s).mac (e.iface s).ipAddr (e.iface s.other).ipAddr
    ipProtoTcp tcp.bytes
  syn : tcp.has tcpSyn = true
  srcPort : tcp.srcPort = swap16 (l.socketAt e s).localPort
  dstPort : tcp.dstPort = swap16 (l.socketAt e s).remotePort
  seq : swap32 tcp.seq = (l.socketAt e s).tcpSeq

/-- The sockets belong together, and only segments with SYN are on their way. -/
structure SynOnly (l : Link) (e : Ends) : Prop where
  route : ∀ s, Route (l.hosts s) (l.hosts s.other) (e.iface s) (e.iface s.other) (e.mac s)
  found : ∀ s, tcpSocket (l.hosts s.other) (e.iface s).ipAddr (l.socketAt e s).localPort
    (l.socketAt e s).remotePort = some (e.sock s.other)
  flight : ∀ s, ∀ frame ∈ l.flight s, ∃ tcp, SynFrame l e s frame.1 tcp
  sent : ∀ s, (l.hosts s).sent = []

/-- A frame arrives. -/
def Link.Delivers (l : Link) (c : LinkCall) (l' : Link) : Prop :=
  ∃ side k behind frame, c = .deliver side k behind ∧
    (l.flight side.other)[k]? = some frame ∧ l.next c = some l'

/-- The frame has a segment with SYN. -/
def CarriesSyn (frame : List Byte) : Prop := ∃ tcp, TcpFrame frame tcp ∧ tcp.has tcpSyn = true

/-- The handshake is over: no SYN is on its way any more, and each end expects the number that the
other will use next. -/
structure Completed (l : Link) (e : Ends) : Prop where
  noSyn : ∀ s, ∀ frame ∈ l.flight s, ¬ CarriesSyn frame.1
  agree : ∀ s, (l.socketAt e s).tcpAck = (l.socketAt e s.other).tcpSeq

/-! ### One delivery -/

/-- The fields that a segment is matched with are the same. -/
def SameMatch (sock sock' : Socket) : Prop :=
  sock'.inUse = sock.inUse ∧ sock'.remoteIp = sock.remoteIp ∧
    sock'.remotePort = sock.remotePort ∧ sock'.localPort = sock.localPort

theorem tcpSocket_setSocket {net : Net} {j : Nat} {sock : Socket}
    (hsame : SameMatch (net.sockets j) sock) (ip : Ip) (srcPort dstPort : Port) :
    tcpSocket (net.setSocket j sock) ip srcPort dstPort = tcpSocket net ip srcPort dstPort := by
  obtain ⟨huse, hip, hremote, hlocal⟩ := hsame
  have hpred : ∀ i, ((net.setSocket j sock).sockets i).inUse = (net.sockets i).inUse ∧
      ((net.setSocket j sock).sockets i).remoteIp = (net.sockets i).remoteIp ∧
      ((net.setSocket j sock).sockets i).remotePort = (net.sockets i).remotePort ∧
      ((net.setSocket j sock).sockets i).localPort = (net.sockets i).localPort := by
    intro i
    by_cases hi : i = j
    · simp [Net.setSocket, hi, huse, hip, hremote, hlocal]
    · simp [Net.setSocket, hi]
  unfold tcpSocket
  simp only [hpred]

/-- The two ends look for each other with the ports of each other. -/
theorem tcpSocket_fields {net : Net} {ip : Ip} {srcPort dstPort : Port} {j : Nat}
    (h : tcpSocket net ip srcPort dstPort = some j) :
    (net.sockets j).remoteIp = ip ∧ (net.sockets j).remotePort = srcPort ∧
      (net.sockets j).localPort = dstPort := by
  have hfound := List.find?_some h
  simp only [Bool.and_eq_true, beq_iff_eq] at hfound
  exact ⟨hfound.1.1.2, hfound.1.2, hfound.2⟩

/-- The socket after a segment with SYN and this sequence number. -/
def afterSyn (sock : Socket) (seq : BitVec 32) : Socket :=
  { sock with tcpState := .established, tcpAck := seq + 1 }

theorem tcpSegment_syn {net : Net} {iface : NetIf} (hw : Wired net iface) {srcIp : Ip} {mac : Mac}
    (harp : arpResolve net srcIp = some mac) {tcp : TcpHdr} (hsyn : tcp.has tcpSyn = true)
    (j : Nat) (m : Mem) (data len : Nat) :
    tcpSegment net j tcp m data len srcIp =
      some { net.setSocket j (afterSyn (net.sockets j) (swap32 tcp.seq)) with
        sent := net.sent ++ [ipFrame mac iface.mac iface.ipAddr srcIp ipProtoTcp
          (tcpHeader tcp.dstPort tcp.srcPort (afterSyn (net.sockets j) (swap32 tcp.seq))
            (tcpSyn ||| tcpAck)).bytes] } := by
  have hw' : Wired (net.setSocket j (afterSyn (net.sockets j) (swap32 tcp.seq))) iface :=
    ⟨hw.first, hw.driver⟩
  unfold tcpSegment
  dsimp only
  rw [if_pos hsyn]
  show tcpReply (net.setSocket j (afterSyn (net.sockets j) (swap32 tcp.seq))) tcp
    (afterSyn (net.sockets j) (swap32 tcp.seq)) (tcpSyn ||| tcpAck) srcIp = _
  unfold tcpReply
  rw [ipSend_eq hw' harp ipProtoTcp (by rw [length_tcpHdr]; decide)]
  rfl

theorem netRecv_tcp {net : Net} {iface : NetIf} (hfirst : net.netifs.head? = some iface)
    {dstMac srcMac : Mac} {srcIp : Ip} {tcp : TcpHdr} {m : Mem} {len j : Nat}
    (hm : Holds m 0 (ipFrame dstMac srcMac srcIp iface.ipAddr ipProtoTcp tcp.bytes))
    (hlen : ethHdrSize + ipHdrSize ≤ len)
    (hsock : tcpSocket net srcIp (swap16 tcp.srcPort) (swap16 tcp.dstPort) = some j) :
    netRecv net m len = tcpSegment net j tcp m 34 tcpWireLen srcIp := by
  have htype := ipFrame_type hm
  unfold netRecv
  rw [if_neg (by omega)]
  dsimp only
  rw [if_neg (by rw [htype]; decide), if_pos htype]
  exact ipHandle_tcp hfirst hm hlen hsock

/-- What a delivery keeps of a host and of its end of the connection. -/
structure EndKept (l l' : Link) (e : Ends) (s : Side) : Prop where
  netifs : (l'.hosts s).netifs = (l.hosts s).netifs
  drivers : (l'.hosts s).netDriverCount = (l.hosts s).netDriverCount
  arpCache : (l'.hosts s).arpCache = (l.hosts s).arpCache
  search : ∀ ip srcPort dstPort,
    tcpSocket (l'.hosts s) ip srcPort dstPort = tcpSocket (l.hosts s) ip srcPort dstPort
  localPort : (l'.socketAt e s).localPort = (l.socketAt e s).localPort
  remotePort : (l'.socketAt e s).remotePort = (l.socketAt e s).remotePort
  tcpSeq : (l'.socketAt e s).tcpSeq = (l.socketAt e s).tcpSeq

theorem SynFrame.kept {l l' : Link} {e : Ends} {s : Side} {frame : List Byte} {tcp : TcpHdr}
    (h : SynFrame l e s frame tcp) (hkept : EndKept l l' e s) : SynFrame l' e s frame tcp :=
  ⟨h.frame, h.syn, by rw [hkept.localPort]; exact h.srcPort,
    by rw [hkept.remotePort]; exact h.dstPort, by rw [hkept.tcpSeq]; exact h.seq⟩

/-- A route depends on the interfaces and on the ARP cache. -/
theorem Route.same {src dst src' dst' : Net} {srcIf dstIf : NetIf} {mac : Mac}
    (h : Route src dst srcIf dstIf mac) (hnetifs : src'.netifs = src.netifs)
    (hdrivers : src'.netDriverCount = src.netDriverCount) (harp : src'.arpCache = src.arpCache)
    (hdst : dst'.netifs = dst.netifs) : Route src' dst' srcIf dstIf mac := by
  obtain ⟨out, hup, hdriver⟩ := h.wired.driver
  refine ⟨⟨?_, out, ?_, ?_⟩, ?_, ?_⟩
  · rw [hnetifs]
    exact h.wired.first
  · rw [hnetifs]
    exact hup
  · rw [hdrivers]
    exact hdriver
  · unfold arpResolve arpCacheFind
    rw [harp]
    exact h.arp
  · rw [hdst]
    exact h.first

theorem SynOnly.kept {l l' : Link} {e : Ends} (h : SynOnly l e) (hkept : ∀ s, EndKept l l' e s)
    (hflight : ∀ s, ∀ frame ∈ l'.flight s, frame ∈ l.flight s ∨ ∃ tcp, SynFrame l e s frame.1 tcp)
    (hsent : ∀ s, (l'.hosts s).sent = []) : SynOnly l' e := by
  refine ⟨fun s => ?_, fun s => ?_, fun s frame hframe => ?_, hsent⟩
  · exact (h.route s).same (hkept s).netifs (hkept s).drivers (hkept s).arpCache
      (hkept s.other).netifs
  · rw [(hkept s.other).search, (hkept s).localPort, (hkept s).remotePort]
    exact h.found s
  · rcases hflight s frame hframe with hold | ⟨tcp, hnew⟩
    · obtain ⟨tcp, htcp⟩ := h.flight s frame hold
      exact ⟨tcp, htcp.kept (hkept s)⟩
    · exact ⟨tcp, hnew.kept (hkept s)⟩

theorem Side.eq_or_eq_other (s t : Side) : t = s ∨ t = s.other := by
  cases s <;> cases t <;> simp [Side.other]

/-- The link after a segment with SYN has reached its socket at this end and was answered. -/
def Link.answered (l : Link) (e : Ends) (s : Side) (k : Nat) (reply : List Byte) : Link where
  hosts := Function.update l.hosts s
    ((l.hosts s).setSocket (e.sock s) (afterSyn (l.socketAt e s) (l.socketAt e s.other).tcpSeq))
  flight := Function.update (l.take s.other k).flight s (l.flight s ++ [(reply, .control)])

theorem answered_self (l : Link) (e : Ends) (s : Side) (k : Nat) (reply : List Byte) :
    (l.answered e s k reply).socketAt e s =
      afterSyn (l.socketAt e s) (l.socketAt e s.other).tcpSeq := by
  simp [Link.answered, Link.socketAt, Net.setSocket]

theorem answered_other (l : Link) (e : Ends) (s : Side) (k : Nat) (reply : List Byte) :
    (l.answered e s k reply).hosts s.other = l.hosts s.other := by
  simp [Link.answered]

theorem answered_flight (l : Link) (e : Ends) (s : Side) (k : Nat) (reply : List Byte) :
    (l.answered e s k reply).flight s = l.flight s ++ [(reply, .control)] := by
  simp [Link.answered]

theorem answered_flight_other (l : Link) (e : Ends) (s : Side) (k : Nat) (reply : List Byte) :
    (l.answered e s k reply).flight s.other = (l.flight s.other).eraseIdx k := by
  simp [Link.answered, Link.take]

theorem after_eq_answered {l : Link} {e : Ends} {s : Side} {k : Nat} {reply : List Byte} {net : Net}
    (hquiet : (l.hosts s).sent = [])
    (hnet : net = { (l.hosts s).setSocket (e.sock s)
        (afterSyn (l.socketAt e s) (l.socketAt e s.other).tcpSeq) with
      sent := (l.hosts s).sent ++ [reply] }) :
    (l.take s.other k).after s net .control = l.answered e s k reply := by
  have hhost : ({ net with sent := [] } : Net) = (l.hosts s).setSocket (e.sock s)
      (afterSyn (l.socketAt e s) (l.socketAt e s.other).tcpSeq) := by
    rw [hnet, ← hquiet]
    rfl
  have hsent : net.sent = [reply] := by
    rw [hnet]
    dsimp only
    rw [hquiet, List.nil_append]
  have hflight : (l.take s.other k).flight s = l.flight s :=
    Function.update_of_ne (Side.other_ne s).symm _ _
  unfold Link.after Link.answered
  rw [hhost, hsent, hflight]
  rfl

/-- Nothing that segments are sent or matched with has changed. -/
theorem endKept_answered (l : Link) (e : Ends) (s : Side) (k : Nat) (reply : List Byte) (t : Side) :
    EndKept l (l.answered e s k reply) e t := by
  rcases Side.eq_or_eq_other s t with rfl | rfl
  · have hhost : (l.answered e t k reply).hosts t = (l.hosts t).setSocket (e.sock t)
        (afterSyn (l.socketAt e t) (l.socketAt e t.other).tcpSeq) := by
      simp [Link.answered]
    have hsock := answered_self l e t k reply
    refine ⟨by rw [hhost]; rfl, by rw [hhost]; rfl, by rw [hhost]; rfl, ?_, ?_, ?_, ?_⟩
    · intro ip srcPort dstPort
      rw [hhost]
      have hsame : SameMatch ((l.hosts t).sockets (e.sock t))
          (afterSyn (l.socketAt e t) (l.socketAt e t.other).tcpSeq) := ⟨rfl, rfl, rfl, rfl⟩
      exact tcpSocket_setSocket hsame ip srcPort dstPort
    · rw [hsock]
      rfl
    · rw [hsock]
      rfl
    · rw [hsock]
      rfl
  · have hhost := answered_other l e s k reply
    have hsock : (l.answered e s k reply).socketAt e s.other = l.socketAt e s.other := by
      unfold Link.socketAt
      rw [hhost]
    refine ⟨by rw [hhost], by rw [hhost], by rw [hhost], ?_, ?_, ?_, ?_⟩
    · intro ip srcPort dstPort
      rw [hhost]
    · rw [hsock]
    · rw [hsock]
    · rw [hsock]

theorem SynOnly.answered {l : Link} {e : Ends} (h : SynOnly l e) {s : Side} (k : Nat)
    {reply : List Byte} {tcp : TcpHdr} (hreply : SynFrame l e s reply tcp) :
    SynOnly (l.answered e s k reply) e := by
  refine h.kept (endKept_answered l e s k reply) (fun t frame hframe => ?_) fun t => ?_
  · rcases Side.eq_or_eq_other s t with rfl | rfl
    · rw [answered_flight] at hframe
      rcases List.mem_append.mp hframe with hold | hnew
      · exact .inl hold
      · rw [List.mem_singleton.mp hnew]
        exact .inr ⟨tcp, hreply⟩
    · rw [answered_flight_other] at hframe
      exact .inl (List.mem_of_mem_eraseIdx hframe)
  · rcases Side.eq_or_eq_other s t with rfl | rfl
    · simp only [Link.answered, Function.update_self]
      exact h.sent t
    · rw [answered_other]
      exact h.sent s.other

/-- A segment with SYN is answered by one, and its socket counts the SYN. -/
theorem SynOnly.deliver {l : Link} {e : Ends} (h : SynOnly l e) {s : Side} {k : Nat}
    {frame : List Byte × Origin} (hk : (l.flight s.other)[k]? = some frame) (behind : Mem) :
    ∃ reply tcp, SynFrame l e s reply tcp ∧ tcp.has tcpAck = true ∧
      l.next (.deliver s k behind) = some (l.answered e s k reply) := by
  obtain ⟨tcp, hsyn⟩ := h.flight s.other frame (List.mem_of_getElem? hk)
  have hroute := h.route s
  have hm : Holds (onto frame.1 behind) 0 (ipFrame (e.mac s.other) (e.iface s.other).mac
      (e.iface s.other).ipAddr (e.iface s).ipAddr ipProtoTcp tcp.bytes) := by
    have hframe := hsyn.frame
    rw [Side.other_other] at hframe
    rw [← hframe]
    exact holds_onto frame.1 behind
  have hlen : ethHdrSize + ipHdrSize ≤ frame.1.length := by
    rw [hsyn.frame, length_ipFrame]
    omega
  have hsock : tcpSocket (l.hosts s) (e.iface s.other).ipAddr (swap16 tcp.srcPort)
      (swap16 tcp.dstPort) = some (e.sock s) := by
    have hfound := h.found s.other
    rw [Side.other_other] at hfound
    rw [hsyn.srcPort, hsyn.dstPort, swap16_swap16, swap16_swap16]
    exact hfound
  have hrecv := netRecv_tcp hroute.wired.first hm hlen hsock
  rw [tcpSegment_syn hroute.wired hroute.arp hsyn.syn, hsyn.seq] at hrecv
  -- The ports of the answer are those of the other end, turned around.
  obtain ⟨-, hremote, hlocal⟩ := tcpSocket_fields hsock
  refine ⟨_, tcpHeader tcp.dstPort tcp.srcPort
    (afterSyn (l.socketAt e s) (l.socketAt e s.other).tcpSeq) (tcpSyn ||| tcpAck),
    ⟨rfl, ?_, ?_, ?_, ?_⟩, ?_, ?_⟩
  · show ((tcpSyn ||| tcpAck) &&& tcpSyn != 0) = true
    decide
  · show tcp.dstPort = swap16 ((l.hosts s).sockets (e.sock s)).localPort
    rw [hlocal, swap16_swap16]
  · show tcp.srcPort = swap16 ((l.hosts s).sockets (e.sock s)).remotePort
    rw [hremote, swap16_swap16]
  · exact swap32_swap32 _
  · show ((tcpSyn ||| tcpAck) &&& tcpAck != 0) = true
    decide
  · rw [deliver_eq hk hrecv]
    exact congrArg some (after_eq_answered (h.sent s) rfl)

/-! ### Deliveries without end -/

theorem SynFrame.carriesSyn {l : Link} {e : Ends} {s : Side} {frame : List Byte} {tcp : TcpHdr}
    (h : SynFrame l e s frame tcp) : CarriesSyn frame :=
  ⟨tcp, ⟨_, _, _, _, h.frame⟩, h.syn⟩

/-- Only segments with SYN are on their way, and there is one. -/
structure Opening (l : Link) (e : Ends) : Prop where
  synOnly : SynOnly l e
  busy : ∃ s, l.flight s ≠ []

theorem Opening.step {l l' : Link} {e : Ends} {c : LinkCall} (h : Opening l e)
    (hstep : l.Delivers c l') : Opening l' e := by
  obtain ⟨s, k, behind, frame, rfl, hk, hnext⟩ := hstep
  obtain ⟨reply, tcp, hreply, -, hanswer⟩ := h.synOnly.deliver hk behind
  rw [← Option.some.inj (hanswer.symm.trans hnext)]
  refine ⟨h.synOnly.answered k hreply, s, ?_⟩
  rw [answered_flight]
  simp

theorem Opening.run {l l' : Link} {e : Ends} {calls : List LinkCall} (h : Opening l e)
    (hrun : Executes Link.Delivers l calls l') : Opening l' e := by
  have hstep : ∀ l c l', Opening l e → l.Delivers c l' → Opening l' e :=
    fun _ _ _ hl hdeliver => hl.step hdeliver
  exact hrun.invariant hstep h

theorem Opening.delivers {l : Link} {e : Ends} (h : Opening l e) : ∃ c l', l.Delivers c l' := by
  obtain ⟨t, hbusy⟩ := h.busy
  obtain ⟨frame, rest, hflight⟩ := List.exists_cons_of_ne_nil hbusy
  have hk : (l.flight t.other.other)[0]? = some frame := by
    rw [Side.other_other, hflight]
    rfl
  obtain ⟨reply, tcp, -, -, hnext⟩ := h.synOnly.deliver hk fun _ => 0
  exact ⟨_, _, t.other, 0, _, frame, rfl, hk, hnext⟩

/-- There are runs of any length. -/
theorem Opening.runs {e : Ends} (n : Nat) : ∀ {l : Link}, Opening l e →
    ∃ calls l', calls.length = n ∧ Executes Link.Delivers l calls l' := by
  induction n with
  | zero =>
      intro l _
      exact ⟨[], l, rfl, .nil l⟩
  | succ n ih =>
      intro l h
      obtain ⟨c, mid, hstep⟩ := h.delivers
      obtain ⟨calls, l', hlen, hrun⟩ := ih (h.step hstep)
      exact ⟨c :: calls, l', by rw [List.length_cons, hlen], .cons hstep hrun⟩

theorem Opening.not_completed {l : Link} {e : Ends} (h : Opening l e) : ¬ Completed l e := by
  intro hdone
  obtain ⟨s, hbusy⟩ := h.busy
  obtain ⟨frame, hframe⟩ := List.exists_mem_of_ne_nil _ hbusy
  obtain ⟨tcp, htcp⟩ := h.synOnly.flight s frame hframe
  exact hdone.noSyn s frame hframe htcp.carriesSyn

/-! ### The call that begins it -/

/-- One end calls `tcp_connect` on a quiet link, and the other has a socket for it. -/
structure Opens (l₀ l : Link) (e : Ends) (client : Side) : Prop where
  quiet : l₀.Quiet
  route : ∀ s, Route (l₀.hosts s) (l₀.hosts s.other) (e.iface s) (e.iface s.other) (e.mac s)
  connect : ∃ net port, l = l₀.after client net .control ∧
    tcpConnect (l₀.hosts client) (e.iface client.other).ipAddr port =
      some (net, (e.sock client : Int))
  found : ∀ s, tcpSocket (l.hosts s.other) (e.iface s).ipAddr (l.socketAt e s).localPort
    (l.socketAt e s).remotePort = some (e.sock s.other)

/-- `tcp_connect` takes a free socket and sends a SYN. -/
theorem tcpConnect_sent {net net' : Net} {iface : NetIf} (hw : Wired net iface) {dstIp : Ip}
    {mac : Mac} (harp : arpResolve net dstIp = some mac) {port : Port} {i : Nat}
    (hcall : tcpConnect net dstIp port = some (net', (i : Int))) :
    ∃ sock : Socket, sock.tcpState = .synSent ∧
      net' = { net.setSocket i sock with
        nextPort := (allocPort net).1.nextPort
        sent := net.sent ++ [ipFrame mac iface.mac iface.ipAddr dstIp ipProtoTcp
          ({ socketHeader sock tcpSyn with ack := 0 } : TcpHdr).bytes] } := by
  have hsend : ∀ (j : Nat) (sock : Socket) (syn : TcpHdr),
      ipSend ((allocPort net).1.setSocket j sock) dstIp ipProtoTcp syn.bytes =
        some ({ (allocPort net).1.setSocket j sock with
          sent := net.sent ++ [ipFrame mac iface.mac iface.ipAddr dstIp ipProtoTcp syn.bytes] }, 0) := by
    intro j sock syn
    have hw' : Wired ((allocPort net).1.setSocket j sock) iface := ⟨hw.first, hw.driver⟩
    exact ipSend_eq hw' harp ipProtoTcp (by rw [length_tcpHdr]; decide)
  unfold tcpConnect at hcall
  split at hcall
  · have hret := (Prod.mk.inj (Option.some.inj hcall)).2
    omega
  · dsimp only at hcall
    rw [hsend] at hcall
    obtain ⟨hnet, hi⟩ := Prod.mk.inj (Option.some.inj hcall)
    rw [← Int.ofNat_inj.mp hi]
    exact ⟨_, rfl, hnet.symm⟩

theorem Opens.opening {l₀ l : Link} {e : Ends} {client : Side} (h : Opens l₀ l e client) :
    Opening l e ∧ (l.socketAt e client).tcpState = .synSent := by
  obtain ⟨net, port, hl, hcall⟩ := h.connect
  have hroute := h.route client
  obtain ⟨sock, hstate, hnet⟩ := tcpConnect_sent hroute.wired hroute.arp hcall
  have hself : l.socketAt e client = sock := by
    rw [hl, hnet]
    simp [Link.after, Link.socketAt, Net.setSocket]
  have hflight : l.flight client = [(ipFrame (e.mac client) (e.iface client).mac
      (e.iface client).ipAddr (e.iface client.other).ipAddr ipProtoTcp
      ({ socketHeader sock tcpSyn with ack := 0 } : TcpHdr).bytes, .control)] := by
    rw [hl, hnet]
    simp [Link.after, h.quiet.flight client, h.quiet.sent client]
  have hsame : ∀ s, (l.hosts s).netifs = (l₀.hosts s).netifs ∧
      (l.hosts s).netDriverCount = (l₀.hosts s).netDriverCount ∧
      (l.hosts s).arpCache = (l₀.hosts s).arpCache ∧ (l.hosts s).sent = [] := by
    intro s
    rcases Side.eq_or_eq_other client s with rfl | rfl
    · rw [hl, hnet]
      simp [Link.after, Net.setSocket]
    · rw [hl]
      simp [Link.after, h.quiet.sent]
  refine ⟨⟨⟨fun s => ?_, h.found, fun s frame hframe => ?_, fun s => (hsame s).2.2.2⟩, client, ?_⟩, ?_⟩
  · exact (h.route s).same (hsame s).1 (hsame s).2.1 (hsame s).2.2.1 (hsame s.other).1
  · rcases Side.eq_or_eq_other client s with rfl | rfl
    · rw [hflight] at hframe
      rw [List.mem_singleton.mp hframe]
      refine ⟨_, rfl, ?_, ?_, ?_, ?_⟩
      · show (tcpSyn &&& tcpSyn != 0) = true
        decide
      · rw [hself]
        rfl
      · rw [hself]
        rfl
      · rw [hself]
        exact swap32_swap32 _
    · rw [hl] at hframe
      simp [Link.after, h.quiet.flight] at hframe
  · rw [hflight]
    simp
  · rw [hself]
    exact hstate

/--
**No handshake between two hosts of this stack ends.**  Whatever order the segments are delivered
in after `tcp_connect`, each of them carries SYN; the socket it reaches is established, answers
with SYN and ACK again, and expects a number that its peer does not use next.  Deliveries go on
for as long as one likes, and the handshake is complete in no state.
-/
theorem tcp_handshake_never_completes {l₀ l₁ l : Link} {e : Ends} {client : Side}
    (hopens : Opens l₀ l₁ e client) {calls : List LinkCall}
    (hrun : Executes Link.Delivers l₁ calls l) :
    (l₁.socketAt e client).tcpState = .synSent ∧
    (∀ s k frame behind, (l.flight s.other)[k]? = some frame → CarriesSyn frame.1 ∧
      ∃ l' reply, l.next (.deliver s k behind) = some l' ∧
        l'.flight s = l.flight s ++ [(reply, .control)] ∧ CarriesSyn reply ∧
        (l'.socketAt e s).tcpState = .established ∧
        (l'.socketAt e s).tcpAck ≠ (l'.socketAt e s.other).tcpSeq) ∧
    (∀ n, ∃ more l', more.length = n ∧ Executes Link.Delivers l more l') ∧
    ¬ Completed l e := by
  obtain ⟨hopening, hstate⟩ := hopens.opening
  have h := hopening.run hrun
  refine ⟨hstate, ?_, fun n => h.runs n, h.not_completed⟩
  intro s k frame behind hk
  obtain ⟨tcp, htcp⟩ := h.synOnly.flight s.other frame (List.mem_of_getElem? hk)
  obtain ⟨reply, tcp', hreply, -, hnext⟩ := h.synOnly.deliver hk behind
  refine ⟨htcp.carriesSyn, _, reply, hnext, answered_flight .., hreply.carriesSyn, ?_, ?_⟩
  · rw [answered_self]
    rfl
  · rw [answered_self, (endKept_answered l e s k reply s.other).tcpSeq]
    show (l.socketAt e s.other).tcpSeq + 1 ≠ (l.socketAt e s.other).tcpSeq
    intro hsame
    exact absurd (add_eq_left.mp hsame) (by decide)

/-- Host b has socket 2 ready for a connection from port 49152 of host a. -/
def lanReady : Link where
  hosts s := if s = .a then lanHost 1 2 else (lanHost 2 1).setSocket 2 { closedSocket with
    inUse := true, type := 1, localPort := 80, remotePort := 49152, remoteIp := 1, tcpSeq := 5000 }
  flight _ := []

def lanEnds : Ends where
  sock _ := 2
  iface s := if s = .a then lanIf 1 else lanIf 2
  mac _ := Vector.replicate 6 0x04

/-- Host a has called `tcp_connect`. -/
def lanOpened : Link :=
  lanReady.after .a ((tcpConnect (lanHost 1 2) 2 80).getD (lanHost 1 2, 0)).1 .control

theorem lanOpened_opens : Opens lanReady lanOpened lanEnds .a := by
  refine ⟨⟨fun s => rfl, fun s => ?_⟩, fun s => ?_, ⟨_, 80, rfl, ?_⟩, fun s => ?_⟩
  · cases s <;> rfl
  · cases s
    · exact (lanHost_route 1 2).same rfl rfl rfl rfl
    · exact (lanHost_route 2 1).same rfl rfl rfl rfl
  · have hret : (tcpConnect (lanHost 1 2) 2 80).map Prod.snd = some 2 := by decide +kernel
    obtain ⟨r, hr, hsnd⟩ := Option.map_eq_some_iff.mp hret
    show tcpConnect (lanHost 1 2) 2 80 = some (((tcpConnect (lanHost 1 2) 2 80).getD _).1, 2)
    rw [hr, ← hsnd]
    rfl
  · cases s <;> decide +kernel

theorem lanOpened_flight : ∃ frame, lanOpened.flight .a = [frame] := by
  have hlen : (lanOpened.flight .a).length = 1 := by decide +kernel
  exact List.length_eq_one_iff.mp hlen

/-- The SYN is delivered to host b, and then its answer to host a. -/
theorem lanOpened_exchange : ∃ synAck tcp answer tcp',
    SynFrame lanOpened lanEnds .b synAck tcp ∧ tcp.has tcpAck = true ∧
    lanOpened.Delivers (.deliver .b 0 fun _ => 0) (lanOpened.answered lanEnds .b 0 synAck) ∧
    SynFrame (lanOpened.answered lanEnds .b 0 synAck) lanEnds .a answer tcp' ∧
    (lanOpened.answered lanEnds .b 0 synAck).Delivers (.deliver .a 0 fun _ => 0)
      ((lanOpened.answered lanEnds .b 0 synAck).answered lanEnds .a 0 answer) := by
  obtain ⟨hopening, -⟩ := lanOpened_opens.opening
  obtain ⟨frame, hframe⟩ := lanOpened_flight
  have hk : (lanOpened.flight Side.b.other)[0]? = some frame := by
    show (lanOpened.flight .a)[0]? = some frame
    rw [hframe]
    rfl
  obtain ⟨synAck, tcp, hsynAck, hack, hnext⟩ := hopening.synOnly.deliver hk fun _ => 0
  have hfirst : lanOpened.Delivers (.deliver .b 0 fun _ => 0)
      (lanOpened.answered lanEnds .b 0 synAck) := ⟨_, _, _, _, rfl, hk, hnext⟩
  have hk' : ((lanOpened.answered lanEnds .b 0 synAck).flight Side.a.other)[0]? =
      some (synAck, .control) := by
    show ((lanOpened.answered lanEnds .b 0 synAck).flight .b)[0]? = _
    rw [answered_flight]
    rfl
  obtain ⟨answer, tcp', hanswer, -, hnext'⟩ :=
    (hopening.step hfirst).synOnly.deliver hk' fun _ => 0
  exact ⟨synAck, tcp, answer, tcp', hsynAck, hack, hfirst, hanswer, ⟨_, _, _, _, rfl, hk', hnext'⟩⟩

theorem tcp_handshake_lan :
    ∃ l, Executes Link.Delivers lanOpened [.deliver .b 0 fun _ => 0, .deliver .a 0 fun _ => 0] l ∧
      (l.socketAt lanEnds .a).tcpState = .established ∧ ¬ Completed l lanEnds := by
  obtain ⟨synAck, -, answer, -, -, -, hfirst, -, hsecond⟩ := lanOpened_exchange
  have hrun := Executes.cons hfirst (.cons hsecond (.nil _))
  refine ⟨_, hrun, ?_, (tcp_handshake_never_completes lanOpened_opens hrun).2.2.2⟩
  rw [answered_self]
  rfl

/-- Host a gets the SYN and ACK for its SYN, and answers with SYN. -/
theorem tcp_syn_ack_answered_with_syn :
    ∃ l l' synAck tcp answer,
      Executes Link.Delivers lanOpened [.deliver .b 0 fun _ => 0] l ∧
      (l.socketAt lanEnds .a).tcpState = .synSent ∧
      l.flight .b = [(synAck, .control)] ∧ TcpFrame synAck tcp ∧
      tcp.has tcpSyn = true ∧ tcp.has tcpAck = true ∧
      l.Delivers (.deliver .a 0 fun _ => 0) l' ∧
      (l'.socketAt lanEnds .a).tcpState = .established ∧
      l'.flight .a = [(answer, .control)] ∧ CarriesSyn answer ∧
      (l'.socketAt lanEnds .a).tcpAck ≠ (l'.socketAt lanEnds .b).tcpSeq := by
  obtain ⟨synAck, tcp, answer, tcp', hsynAck, hack, hfirst, hanswer, hsecond⟩ := lanOpened_exchange
  obtain ⟨frame, hframe⟩ := lanOpened_flight
  have hleft : (lanOpened.answered lanEnds .b 0 synAck).flight .a = [] := by
    have herase := answered_flight_other lanOpened lanEnds .b 0 synAck
    show (lanOpened.answered lanEnds .b 0 synAck).flight Side.b.other = []
    rw [herase]
    show (lanOpened.flight .a).eraseIdx 0 = []
    rw [hframe]
    rfl
  have hclient : (lanOpened.answered lanEnds .b 0 synAck).socketAt lanEnds .a =
      lanOpened.socketAt lanEnds .a := by
    show ((lanOpened.answered lanEnds .b 0 synAck).hosts Side.b.other).sockets 2 = _
    rw [answered_other]
    rfl
  refine ⟨_, _, synAck, tcp, answer, .cons hfirst (.nil _), ?_,
    answered_flight lanOpened lanEnds .b 0 synAck, ⟨_, _, _, _, hsynAck.frame⟩, hsynAck.syn, hack,
    hsecond, ?_, ?_, hanswer.carriesSyn, ?_⟩
  · rw [hclient]
    exact lanOpened_opens.opening.2
  · rw [answered_self]
    rfl
  · rw [answered_flight, hleft]
    rfl
  · rw [answered_self, (endKept_answered _ lanEnds .a 0 answer .b).tcpSeq]
    intro hsame
    exact absurd (add_eq_left.mp hsame) (by decide)

end BrightS
