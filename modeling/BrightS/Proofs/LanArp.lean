/-
Hosts of this stack on one Ethernet.

A frame that a host has sent may reach any host, its sender included: at once or late, often or
never, in any order, with whatever lies behind it in the receiver's memory.  Between that every
host makes the calls of its own.

Nobody checks an ARP packet, so what a cache knows is what the others said.  Here that is enough.
A packet names its sender's own interface, an IP frame goes to an address the cache of its sender
knew, and both stay true on the wire (`lan_truthful`).  A destination that was asked for becomes
known, unless the cache fills up before the answer comes (`lan_resolution`).
-/
import BrightS.Lib.Parties
import BrightS.Proofs.ArpCache
import BrightS.Proofs.NetFit

namespace BrightS

open Bytes Runs Parties

/-! ### One host -/

/-- The calls of a host to its network stack, but for the receipt of a frame.  An interface stays as
it was configured: `net_init`, the `netif` functions and a raw `brights_net_send` are left out. -/
inductive HostCall where
  | arpRequest (targetIp : Ip)
  | ipSend (dstIp : Ip) (protocol : Byte) (data : List Byte)
  | icmpEchoRequest (dstIp : Ip)
  | udpSend (dstIp : Ip) (srcPort dstPort : Port) (data : List Byte)
  | tcpConnect (dstIp : Ip) (dstPort : Port)
  | socket (domain type : Int)
  | bind (sockfd : Int) (addr : Ip) (port : Port)
  | listen (sockfd : Int)
  | connect (sockfd : Int) (addr : Ip) (port : Port)
  | send (sockfd : Int) (buf : List Byte)
  | recv (sockfd : Int) (len : Nat)
  | close (sockfd : Int)

def HostCall.run (net : Net) : HostCall → Option Net
  | .arpRequest targetIp => some (BrightS.arpRequest net targetIp)
  | .ipSend dstIp protocol data => (BrightS.ipSend net dstIp protocol data).map Prod.fst
  | .icmpEchoRequest dstIp => (BrightS.icmpEchoRequest net dstIp).map Prod.fst
  | .udpSend dstIp srcPort dstPort data =>
      (BrightS.udpSend net dstIp srcPort dstPort data).map Prod.fst
  | .tcpConnect dstIp dstPort => (BrightS.tcpConnect net dstIp dstPort).map Prod.fst
  | .socket domain type => some (brightsSocket net domain type).1
  | .bind sockfd addr port => some (brightsBind net sockfd addr port).1
  | .listen sockfd => some (brightsListen net sockfd).1
  | .connect sockfd addr port => (brightsConnect net sockfd addr port).map Prod.fst
  | .send sockfd buf => (brightsSend net sockfd buf).map Prod.fst
  | .recv sockfd len => some (brightsRecv net sockfd len).1
  | .close sockfd => (brightsClose net sockfd).map Prod.fst

/-- A driver may hand over more than the frame, and `behind` is what that shows. -/
def host : Machine Net (List Byte) HostCall where
  call net c net' := c.run net = some net'
  receive net frame net' :=
    ∃ behind padding, netRecv net (onto frame behind) (frame.length + padding) = some net'
  emitted net := net.sent

/-! ### Frames -/

def requestFrame (iface : NetIf) (targetIp : Ip) : List Byte :=
  ethHdr (Vector.replicate 6 0xFF) iface.mac 0x0608 ++
    arpBytes 0x0100 iface.mac iface.ipAddr (Vector.replicate 6 0) targetIp

def replyFrame (iface : NetIf) (targetMac : Mac) (targetIp : Ip) : List Byte :=
  ethHdr targetMac iface.mac 0x0608 ++
    arpBytes 0x0200 iface.mac iface.ipAddr targetMac targetIp

/-- What a host with this interface says, if `owner` is what it was told. -/
inductive TrueFrame (owner : Ip → Mac → Prop) (iface : NetIf) : List Byte → Prop where
  | request (targetIp : Ip) : TrueFrame owner iface (requestFrame iface targetIp)
  | reply (targetMac : Mac) (targetIp : Ip) (howner : owner targetIp targetMac) :
      TrueFrame owner iface (replyFrame iface targetMac targetIp)
  | packet (dstMac : Mac) (dstIp : Ip) (protocol : Byte) (data : List Byte)
      (howner : owner dstIp dstMac) :
      TrueFrame owner iface (ipFrame dstMac iface.mac iface.ipAddr dstIp protocol data)

theorem macAt_holds {m : Mem} {a : Nat} {mac : Mac} (h : Holds m a mac.toList) :
    macAt m a = mac := by
  apply Vector.ext
  intro i hi
  have hbyte := h i (by simpa using hi)
  simpa [macAt] using hbyte

theorem requestFrame_length (iface : NetIf) (targetIp : Ip) :
    (requestFrame iface targetIp).length = ethHdrSize + arpHdrSize := by
  simp [requestFrame, arpBytes, arpHdrSize]

theorem replyFrame_length (iface : NetIf) (targetMac : Mac) (targetIp : Ip) :
    (replyFrame iface targetMac targetIp).length = ethHdrSize + arpHdrSize := by
  simp [replyFrame, arpBytes, arpHdrSize]

/-- The fields of an ARP packet, where `arp_handle` looks for them. -/
structure ArpFields (m : Mem) (opcode : BitVec 16) (senderMac : Mac) (senderIp targetIp : Ip) :
    Prop where
  type : swap16 (load16 m 12) = 0x0806
  opcode : load16 m 20 = opcode
  senderMac : macAt m 22 = senderMac
  senderIp : load32 m 28 = senderIp
  targetIp : load32 m 38 = targetIp

theorem arpFields {m : Mem} {dst src senderMac targetMac : Mac} {opcode : BitVec 16}
    {senderIp targetIp : Ip}
    (hm : Holds m 0 (ethHdr dst src 0x0608 ++
      arpBytes opcode senderMac senderIp targetMac targetIp)) :
    ArpFields m opcode senderMac senderIp targetIp := by
  have heth := hm.left.right.right
  have harp := hm.right
  simp only [Vector.length_toList, length_ethHdr, ethHdrSize, Nat.zero_add] at heth harp
  unfold arpBytes at harp
  have htarget := harp.right
  have hsender := harp.left.left.right
  have hmac := harp.left.left.left.right
  have hop := harp.left.left.left.left.right
  simp only [List.length_append, length_store16, length_store32, Vector.length_toList,
    List.length_cons, List.length_nil] at htarget hsender hmac hop
  refine ⟨?_, hop.load16_eq, macAt_holds hmac, hsender.load32_eq, htarget.load32_eq⟩
  rw [heth.load16_eq]
  decide

/-! ### What a call does -/

/-- A frame that this host may send in this state. -/
inductive Says (net : Net) : List Byte → Prop where
  | request (iface : NetIf) (hfirst : net.netifs.head? = some iface) (targetIp : Ip) :
      Says net (requestFrame iface targetIp)
  | packet (iface : NetIf) (hfirst : net.netifs.head? = some iface) (dstMac : Mac) (dstIp : Ip)
      (hknown : arpResolve net dstIp = some dstMac) (protocol : Byte) (data : List Byte) :
      Says net (ipFrame dstMac iface.mac iface.ipAddr dstIp protocol data)

/-- At most a frame has been sent, and only sockets have changed. -/
structure Calm (net net' : Net) : Prop where
  netifs : net'.netifs = net.netifs
  drivers : net'.netDriverCount = net.netDriverCount
  arpCache : net'.arpCache = net.arpCache
  sent : net'.sent = net.sent ∨ ∃ frame, Says net frame ∧ net'.sent = net.sent ++ [frame]

/-- Only sockets differ. -/
structure Still (net net' : Net) : Prop where
  netifs : net'.netifs = net.netifs
  drivers : net'.netDriverCount = net.netDriverCount
  arpCache : net'.arpCache = net.arpCache
  sent : net'.sent = net.sent

section Calm

variable {net net' net₁ : Net}

theorem Calm.refl (net : Net) : Calm net net := ⟨rfl, rfl, rfl, .inl rfl⟩

theorem Still.calm (h : Still net net') : Calm net net' :=
  ⟨h.netifs, h.drivers, h.arpCache, .inl h.sent⟩

/-- What a host may say does not depend on its sockets. -/
theorem Says.still (h : Still net net₁) {frame : List Byte} (hsaid : Says net₁ frame) :
    Says net frame := by
  have hresolve : ∀ ip, arpResolve net ip = arpResolve net₁ ip := by
    intro ip
    unfold arpResolve arpCacheFind
    rw [h.arpCache]
  cases hsaid with
  | request iface hfirst targetIp =>
      rw [h.netifs] at hfirst
      exact .request iface hfirst targetIp
  | packet iface hfirst dstMac dstIp hknown protocol data =>
      rw [h.netifs] at hfirst
      rw [← hresolve] at hknown
      exact .packet iface hfirst dstMac dstIp hknown protocol data

/-- Sockets may change before and after. -/
theorem Calm.around {net₂ : Net} (h : Calm net₁ net₂) (hbefore : Still net net₁)
    (hafter : Still net₂ net') : Calm net net' where
  netifs := hafter.netifs.trans (h.netifs.trans hbefore.netifs)
  drivers := hafter.drivers.trans (h.drivers.trans hbefore.drivers)
  arpCache := hafter.arpCache.trans (h.arpCache.trans hbefore.arpCache)
  sent := by
    rw [hafter.sent, ← hbefore.sent]
    rcases h.sent with hsame | ⟨frame, hsaid, hsent⟩
    · exact .inl hsame
    · exact .inr ⟨frame, hsaid.still hbefore, hsent⟩

theorem netSend_calm {frame : List Byte} (hsaid : Says net frame) :
    Calm net (netSend net frame) := by
  rcases netSend_cases net frame with h | h
  · rw [h]
    exact .refl net
  · rw [h]
    exact ⟨rfl, rfl, rfl, .inr ⟨frame, hsaid, rfl⟩⟩

theorem arpRequest_calm (net : Net) (targetIp : Ip) : Calm net (arpRequest net targetIp) := by
  unfold arpRequest
  cases hifs : net.netifs with
  | nil => exact .refl net
  | cons iface rest => exact netSend_calm (.request iface (by rw [hifs]; rfl) targetIp)

theorem ipSend_calm {dstIp : Ip} {protocol : Byte} {data : List Byte} {r : Net × Int}
    (h : ipSend net dstIp protocol data = some r) : Calm net r.1 := by
  unfold ipSend at h
  cases hifs : net.netifs with
  | nil =>
      rw [hifs] at h
      obtain rfl := Option.some.inj h
      exact .refl net
  | cons iface rest =>
      rw [hifs] at h
      dsimp only at h
      split_ifs at h
      cases harp : arpResolve net dstIp with
      | none =>
          rw [harp] at h
          obtain rfl := Option.some.inj h
          exact arpRequest_calm net dstIp
      | some dstMac =>
          rw [harp] at h
          obtain rfl := Option.some.inj h
          exact netSend_calm (.packet iface (by rw [hifs]; rfl) dstMac dstIp harp protocol data)

theorem ipSend_map_calm {dstIp : Ip} {protocol : Byte} {data : List Byte}
    (h : (ipSend net dstIp protocol data).map Prod.fst = some net') : Calm net net' := by
  obtain ⟨r, hsend, rfl⟩ := Option.map_eq_some_iff.mp h
  exact ipSend_calm hsend

/-- A socket is set, and then something is sent. -/
theorem setSocket_ipSend_calm {i : Nat} {sock : Socket} {dstIp : Ip} {protocol : Byte}
    {data : List Byte}
    (h : (ipSend (net.setSocket i sock) dstIp protocol data).map Prod.fst = some net') :
    Calm net net' :=
  (ipSend_map_calm h).around ⟨rfl, rfl, rfl, rfl⟩ ⟨rfl, rfl, rfl, rfl⟩

theorem tcpConnect_calm {dstIp : Ip} {dstPort : Port} {r : Net × Int}
    (h : tcpConnect net dstIp dstPort = some r) : Calm net r.1 := by
  unfold tcpConnect allocPort at h
  split at h
  · obtain rfl := Option.some.inj h
    exact .refl net
  · obtain ⟨sent, hsend, rfl⟩ := Option.map_eq_some_iff.mp h
    exact (ipSend_calm hsend).around ⟨rfl, rfl, rfl, rfl⟩ ⟨rfl, rfl, rfl, rfl⟩

theorem brightsConnect_calm {sockfd : Int} {addr : Ip} {port : Port} {r : Net × Int}
    (h : brightsConnect net sockfd addr port = some r) : Calm net r.1 := by
  unfold brightsConnect at h
  split at h
  · obtain rfl := Option.some.inj h
    exact .refl net
  · dsimp only at h
    split_ifs at h
    · exact (tcpConnect_calm h).around ⟨rfl, rfl, rfl, rfl⟩ ⟨rfl, rfl, rfl, rfl⟩
    · obtain rfl := Option.some.inj h
      exact Still.calm ⟨rfl, rfl, rfl, rfl⟩

theorem brightsSend_calm {sockfd : Int} {buf : List Byte} {r : Net × Int}
    (h : brightsSend net sockfd buf = some r) : Calm net r.1 := by
  unfold brightsSend at h
  split at h
  · obtain rfl := Option.some.inj h
    exact .refl net
  · dsimp only at h
    split_ifs at h
    · exact ipSend_calm h
    · obtain rfl := Option.some.inj h
      exact .refl net
    · obtain ⟨sent, hsend, rfl⟩ := Option.map_eq_some_iff.mp h
      have hcalm := ipSend_calm hsend
      split_ifs
      · exact hcalm.around ⟨rfl, rfl, rfl, rfl⟩ ⟨rfl, rfl, rfl, rfl⟩
      · exact hcalm
    · obtain rfl := Option.some.inj h
      exact .refl net

theorem brightsClose_calm {sockfd : Int} {r : Net × Int}
    (h : brightsClose net sockfd = some r) : Calm net r.1 := by
  unfold brightsClose at h
  split at h
  · obtain rfl := Option.some.inj h
    exact .refl net
  · dsimp only at h
    obtain ⟨sent, hsend, rfl⟩ := Option.map_eq_some_iff.mp h
    split_ifs at hsend
    · exact (ipSend_map_calm hsend).around ⟨rfl, rfl, rfl, rfl⟩ ⟨rfl, rfl, rfl, rfl⟩
    · obtain rfl := Option.some.inj hsend
      exact Still.calm ⟨rfl, rfl, rfl, rfl⟩

/-- **A call** sends at most one frame, and learns nothing. -/
theorem HostCall.run_calm {c : HostCall} (h : c.run net = some net') : Calm net net' := by
  cases c with
  | arpRequest targetIp =>
      obtain rfl := Option.some.inj h
      exact arpRequest_calm net targetIp
  | ipSend dstIp protocol data => exact ipSend_map_calm h
  | icmpEchoRequest dstIp => exact ipSend_map_calm h
  | udpSend dstIp srcPort dstPort data => exact ipSend_map_calm h
  | tcpConnect dstIp dstPort =>
      obtain ⟨r, hr, rfl⟩ := Option.map_eq_some_iff.mp h
      exact tcpConnect_calm hr
  | socket domain type =>
      obtain rfl := Option.some.inj h
      unfold brightsSocket
      split
      · exact .refl net
      · exact Still.calm ⟨rfl, rfl, rfl, rfl⟩
  | bind sockfd addr port =>
      obtain rfl := Option.some.inj h
      unfold brightsBind
      split
      · exact .refl net
      · exact Still.calm ⟨rfl, rfl, rfl, rfl⟩
  | listen sockfd =>
      obtain rfl := Option.some.inj h
      unfold brightsListen
      split
      · exact .refl net
      · exact Still.calm ⟨rfl, rfl, rfl, rfl⟩
  | connect sockfd addr port =>
      obtain ⟨r, hr, rfl⟩ := Option.map_eq_some_iff.mp h
      exact brightsConnect_calm hr
  | send sockfd buf =>
      obtain ⟨r, hr, rfl⟩ := Option.map_eq_some_iff.mp h
      exact brightsSend_calm hr
  | recv sockfd len =>
      obtain rfl := Option.some.inj h
      unfold brightsRecv
      split
      · exact .refl net
      · exact Still.calm ⟨rfl, rfl, rfl, rfl⟩
  | close sockfd =>
      obtain ⟨r, hr, rfl⟩ := Option.map_eq_some_iff.mp h
      exact brightsClose_calm hr

/-! ### What a frame does -/

theorem tcpReply_calm {i : Nat} {set : Socket} {tcp : TcpHdr} {sock : Socket} {flags : Byte}
    {srcIp : Ip} (h : tcpReply (net.setSocket i set) tcp sock flags srcIp = some net') :
    Calm net net' :=
  setSocket_ipSend_calm h

theorem tcpHandle_calm {m : Mem} {data len : Nat} {srcIp : Ip}
    (h : tcpHandle net m data len srcIp = some net') : Calm net net' := by
  unfold tcpHandle at h
  split_ifs at h
  · obtain rfl := Option.some.inj h
    exact .refl net
  · dsimp only at h
    split at h
    · obtain rfl := Option.some.inj h
      exact .refl net
    · unfold tcpSegment at h
      dsimp only at h
      split_ifs at h
      · exact tcpReply_calm h
      · obtain rfl := Option.some.inj h
        exact Still.calm ⟨rfl, rfl, rfl, rfl⟩
      · obtain rfl := Option.some.inj h
        exact .refl net
      · exact tcpReply_calm h
      · exact tcpReply_calm h
      · obtain rfl := Option.some.inj h
        exact .refl net
      · obtain rfl := Option.some.inj h
        exact .refl net

theorem udpHandle_calm (net : Net) (m : Mem) (data len : Nat) (srcIp : Ip) :
    Calm net (udpHandle net m data len srcIp) := by
  unfold udpHandle
  split_ifs
  · exact .refl net
  · dsimp only
    split
    · exact .refl net
    · split_ifs
      · exact Still.calm ⟨rfl, rfl, rfl, rfl⟩
      · exact .refl net

theorem icmpHandle_calm {m : Mem} {data len : Nat} {srcIp : Ip}
    (h : icmpHandle net m data len srcIp = some net') : Calm net net' := by
  unfold icmpHandle at h
  split_ifs at h
  · obtain rfl := Option.some.inj h
    exact .refl net
  · exact ipSend_map_calm h
  · obtain rfl := Option.some.inj h
    exact .refl net

theorem ipHandle_calm {m : Mem} {len : Nat} (h : ipHandle net m len = some net') :
    Calm net net' := by
  unfold ipHandle at h
  split at h
  · obtain rfl := Option.some.inj h
    exact .refl net
  · split_ifs at h
    · exact icmpHandle_calm h
    · obtain rfl := Option.some.inj h
      exact udpHandle_calm ..
    · exact tcpHandle_calm h
    · obtain rfl := Option.some.inj h
      exact .refl net

/-- **A frame** that is no ARP packet is dealt with like a call. -/
theorem netRecv_cases {m : Mem} {len : Nat} (h : netRecv net m len = some net') :
    Calm net net' ∨ (swap16 (load16 m 12) = 0x0806 ∧ net' = arpHandle net m len) := by
  unfold netRecv at h
  split_ifs at h with hshort
  · obtain rfl := Option.some.inj h
    exact .inl (.refl net)
  · dsimp only at h
    split_ifs at h with harp hip
    · exact .inr ⟨harp, (Option.some.inj h).symm⟩
    · exact .inl (ipHandle_calm h)
    · obtain rfl := Option.some.inj h
      exact .inl (.refl net)

end Calm

/-! ### What an ARP packet does -/

section Arp

variable {net net' : Net} {ip : Ip} {mac : Mac}

theorem arpResolve_isSome_iff : (arpResolve net ip).isSome = true ↔
    ∃ i, i < arpCacheSize ∧ (net.arpCache i).valid = true ∧ (net.arpCache i).ip = ip := by
  unfold arpResolve arpCacheFind
  rw [Option.isSome_map, List.find?_isSome]
  simp

theorem arpResolve_entry (h : arpResolve net ip = some mac) :
    ∃ i, i < arpCacheSize ∧ (net.arpCache i).valid = true ∧ (net.arpCache i).ip = ip ∧
      (net.arpCache i).mac = mac := by
  obtain ⟨i, hfind, hmac⟩ := Option.map_eq_some_iff.mp h
  have hthis := List.find?_some hfind
  simp only [Bool.and_eq_true, beq_iff_eq] at hthis
  exact ⟨i, List.mem_range.mp (List.mem_of_find?_eq_some hfind), hthis.1, hthis.2, hmac⟩

/-- The cache has no entry left. -/
def CacheFull (net : Net) : Prop := ∀ i, i < arpCacheSize → (net.arpCache i).valid = true

/-- A packet takes an entry that was free, or there is none. -/
theorem arpCacheAdd_cases (net : Net) (ip : Ip) (mac : Mac) :
    (CacheFull net ∧ arpCacheAdd net ip mac = net) ∨
      ∃ i, i < arpCacheSize ∧ (net.arpCache i).valid = false ∧ arpCacheAdd net ip mac =
        { net with arpCache := Function.update net.arpCache i ⟨ip, mac, true⟩ } := by
  unfold arpCacheAdd
  cases hfree : (List.range arpCacheSize).find? fun i => !(net.arpCache i).valid with
  | none =>
      refine .inl ⟨fun i hi => ?_, rfl⟩
      have hvalid := List.find?_range_eq_none.mp hfree i hi
      simpa using hvalid
  | some i =>
      have hinvalid := List.find?_some hfree
      exact .inr ⟨i, List.mem_range.mp (List.mem_of_find?_eq_some hfree), by simpa using hinvalid,
        rfl⟩

/-- What was there stays there. -/
theorem arpCacheAdd_valid {i : Nat} (hvalid : (net.arpCache i).valid = true) :
    (arpCacheAdd net ip mac).arpCache i = net.arpCache i := by
  rcases arpCacheAdd_cases net ip mac with ⟨-, h⟩ | ⟨j, -, hinvalid, h⟩
  · rw [h]
  · rw [h]
    exact Function.update_of_ne (fun hij => by rw [hij, hinvalid] at hvalid; simp at hvalid) _ _

theorem arpCacheAdd_entry {i : Nat} (hvalid : ((arpCacheAdd net ip mac).arpCache i).valid = true) :
    (net.arpCache i).valid = true ∧ (arpCacheAdd net ip mac).arpCache i = net.arpCache i ∨
      (arpCacheAdd net ip mac).arpCache i = ⟨ip, mac, true⟩ := by
  rcases arpCacheAdd_cases net ip mac with ⟨-, h⟩ | ⟨j, -, -, h⟩
  · rw [h] at hvalid ⊢
    exact .inl ⟨hvalid, rfl⟩
  · rw [h] at hvalid ⊢
    by_cases hij : i = j
    · rw [hij]
      exact .inr (Function.update_self ..)
    · have hsame := Function.update_of_ne hij (⟨ip, mac, true⟩ : ArpEntry) net.arpCache
      dsimp only at hvalid ⊢
      rw [hsame] at hvalid
      exact .inl ⟨hvalid, hsame⟩

theorem arpCacheAdd_learns (net : Net) (ip : Ip) (mac : Mac) :
    CacheFull net ∨ (arpResolve (arpCacheAdd net ip mac) ip).isSome = true := by
  rcases arpCacheAdd_cases net ip mac with ⟨hfull, -⟩ | ⟨i, hi, -, h⟩
  · exact .inl hfull
  · refine .inr (arpResolve_isSome_iff.mpr ⟨i, hi, ?_⟩)
    rw [h]
    simp

theorem arpCacheAdd_drivers (net : Net) (ip : Ip) (mac : Mac) :
    (arpCacheAdd net ip mac).netDriverCount = net.netDriverCount := by
  unfold arpCacheAdd
  split <;> rfl

/-- The sender is entered, and answered if it asked for this host. -/
structure Heard (net : Net) (iface : NetIf) (ip : Ip) (mac : Mac) (asked : Prop) (net' : Net) :
    Prop where
  netifs : net'.netifs = net.netifs
  drivers : net'.netDriverCount = net.netDriverCount
  arpCache : net'.arpCache = (arpCacheAdd net ip mac).arpCache
  sent : net'.sent = net.sent ∨ net'.sent = net.sent ++ [replyFrame iface mac ip]
  answered : asked → Wired net iface → net'.sent = net.sent ++ [replyFrame iface mac ip]

theorem netSend_drivers (net : Net) (frame : List Byte) :
    (netSend net frame).netDriverCount = net.netDriverCount := by
  rcases netSend_cases net frame with h | h <;> rw [h]

theorem arpHandle_heard {iface : NetIf} (hfirst : net.netifs.head? = some iface) {m : Mem}
    {len : Nat} (hlen : ethHdrSize + arpHdrSize ≤ len) :
    Heard net iface (load32 m 28) (macAt m 22)
      (load16 m 20 = 0x0100 ∧ load32 m 38 = iface.ipAddr) (arpHandle net m len) := by
  obtain ⟨rest, hifs⟩ : ∃ rest, net.netifs = iface :: rest := by
    cases hifs : net.netifs with
    | nil =>
        rw [hifs] at hfirst
        exact absurd hfirst (by simp)
    | cons first rest =>
        rw [hifs] at hfirst
        exact ⟨rest, by rw [Option.some.inj hfirst]⟩
  have hadd := arpCacheAdd_netifs net (load32 m 28) (macAt m 22)
  have hdrivers := arpCacheAdd_drivers net (load32 m 28) (macAt m 22)
  have hsent : (arpCacheAdd net (load32 m 28) (macAt m 22)).sent = net.sent :=
    arpCacheAdd_sent ..
  have harp : arpHandle net m len =
      if load16 m 20 = 0x0100 ∧ load32 m 38 = iface.ipAddr then
        netSend (arpCacheAdd net (load32 m 28) (macAt m 22))
          (replyFrame iface (macAt m 22) (load32 m 28))
      else arpCacheAdd net (load32 m 28) (macAt m 22) := by
    unfold arpHandle
    rw [if_neg (by omega), hifs]
    rfl
  rw [harp]
  split_ifs with hasked
  · refine ⟨(netSend_netifs ..).trans hadd, (netSend_drivers ..).trans hdrivers,
      netSend_arpCache .., ?_, fun _ hwired => ?_⟩
    · rcases netSend_cases (arpCacheAdd net (load32 m 28) (macAt m 22))
        (replyFrame iface (macAt m 22) (load32 m 28)) with h | h
      · rw [h]
        exact .inl hsent
      · rw [h]
        exact .inr (by rw [hsent])
    · have hsend : Wired (arpCacheAdd net (load32 m 28) (macAt m 22)) iface :=
        ⟨by rw [hadd]; exact hwired.first, by rw [hadd, hdrivers]; exact hwired.driver⟩
      have hlength := replyFrame_length iface (macAt m 22) (load32 m 28)
      rw [netSend_sent hsend (by rw [hlength]; decide) (by rw [hlength]; decide), hsent]
  · exact ⟨hadd, hdrivers, rfl, .inl hsent, fun h => absurd h hasked⟩

theorem arpHandle_cases (net : Net) (m : Mem) (len : Nat) :
    arpHandle net m len = net ∨ ∃ iface, net.netifs.head? = some iface ∧
      Heard net iface (load32 m 28) (macAt m 22)
        (load16 m 20 = 0x0100 ∧ load32 m 38 = iface.ipAddr) (arpHandle net m len) := by
  by_cases hshort : len < ethHdrSize + arpHdrSize
  · left
    unfold arpHandle
    rw [if_pos hshort]
  · cases hfirst : net.netifs.head? with
    | none =>
        left
        unfold arpHandle
        rw [if_neg hshort, List.head?_eq_none_iff.mp hfirst]
    | some iface => exact .inr ⟨iface, rfl, arpHandle_heard hfirst (Nat.not_lt.mp hshort)⟩

end Arp

/-! ### What stays -/

section Stays

variable {net net' : Net}

/-- What the steps of a host keep of what it said and knows. -/
structure Later (net net' : Net) : Prop where
  netifs : net'.netifs = net.netifs
  drivers : net'.netDriverCount = net.netDriverCount
  sent : net.sent <+: net'.sent
  entries : ∀ i, (net.arpCache i).valid = true → net'.arpCache i = net.arpCache i

theorem Calm.later (h : Calm net net') : Later net net' where
  netifs := h.netifs
  drivers := h.drivers
  sent := by
    rcases h.sent with hsame | ⟨frame, -, hsent⟩
    · rw [hsame]
    · rw [hsent]
      exact List.prefix_append ..
  entries := fun i _ => by rw [h.arpCache]

theorem Heard.later {iface : NetIf} {ip : Ip} {mac : Mac} {asked : Prop}
    (h : Heard net iface ip mac asked net') : Later net net' where
  netifs := h.netifs
  drivers := h.drivers
  sent := by
    rcases h.sent with hsame | hsent
    · rw [hsame]
    · rw [hsent]
      exact List.prefix_append ..
  entries := fun i hvalid => by rw [h.arpCache, arpCacheAdd_valid hvalid]

theorem netRecv_later {m : Mem} {len : Nat} (h : netRecv net m len = some net') :
    Later net net' := by
  rcases netRecv_cases h with hcalm | ⟨-, rfl⟩
  · exact hcalm.later
  · rcases arpHandle_cases net m len with hsame | ⟨iface, -, hheard⟩
    · rw [hsame]
      exact (Calm.refl net).later
    · exact hheard.later

/-- What holds at every later time of a host is stable. -/
theorem stable_of_later {P : Net → Prop} (hP : ∀ {net net'}, P net → Later net net' → P net') :
    host.Stable P where
  call := fun hp hcall => hP hp (HostCall.run_calm hcall).later
  receive := by
    rintro frame net net' hp ⟨behind, padding, hrecv⟩
    exact hP hp (netRecv_later hrecv)

theorem sent_stable (frame : List Byte) : host.Stable fun net => frame ∈ net.sent :=
  stable_of_later fun hin hlater => hlater.sent.subset hin

theorem CacheFull.later (h : CacheFull net) (hlater : Later net net') : CacheFull net' :=
  fun i hi => by
    rw [hlater.entries i (h i hi)]
    exact h i hi

theorem resolve_later {ip : Ip} (h : (arpResolve net ip).isSome = true)
    (hlater : Later net net') : (arpResolve net' ip).isSome = true := by
  obtain ⟨i, hi, hvalid, hip⟩ := arpResolve_isSome_iff.mp h
  have hsame := hlater.entries i hvalid
  exact arpResolve_isSome_iff.mpr ⟨i, hi, by rw [hsame]; exact ⟨hvalid, hip⟩⟩

/-- The host knows a way to the address, or has no room to learn one. -/
def Settled (ip : Ip) (net : Net) : Prop := CacheFull net ∨ (arpResolve net ip).isSome = true

theorem settled_stable (ip : Ip) : host.Stable (Settled ip) :=
  stable_of_later fun h hlater => h.imp (·.later hlater) (resolve_later · hlater)

end Stays

/-! ### Resolution -/

/-- The destination is known, or has been asked for. -/
theorem ipSend_asks {net net' : Net} {iface : NetIf} (hwired : Wired net iface) {dstIp : Ip}
    {protocol : Byte} {data : List Byte}
    (h : (ipSend net dstIp protocol data).map Prod.fst = some net') :
    (arpResolve net dstIp).isSome = true ∨ requestFrame iface dstIp ∈ net'.sent := by
  cases hres : arpResolve net dstIp with
  | some mac => exact .inl rfl
  | none =>
      right
      obtain ⟨rest, hifs⟩ : ∃ rest, net.netifs = iface :: rest := by
        have hfirst := hwired.first
        cases hifs : net.netifs with
        | nil =>
            rw [hifs] at hfirst
            exact absurd hfirst (by simp)
        | cons first rest =>
            rw [hifs] at hfirst
            exact ⟨rest, by rw [Option.some.inj hfirst]⟩
      unfold ipSend at h
      rw [hifs, hres] at h
      dsimp only at h
      split_ifs at h with hlong
      · exact absurd h (by simp)
      obtain rfl := Option.some.inj h
      have hlength := requestFrame_length iface dstIp
      have hsend : arpRequest net dstIp = netSend net (requestFrame iface dstIp) := by
        unfold arpRequest
        rw [hifs]
        rfl
      rw [hsend, netSend_sent hwired (by rw [hlength]; decide) (by rw [hlength]; decide)]
      simp

/-- What is received has an ARP packet in it. -/
theorem receive_arp {net net' : Net} {iface : NetIf} (hfirst : net.netifs.head? = some iface)
    {frame : List Byte} (hlength : frame.length = ethHdrSize + arpHdrSize) {opcode : BitVec 16}
    {senderMac : Mac} {senderIp targetIp : Ip}
    (hfields : ∀ m, Holds m 0 frame → ArpFields m opcode senderMac senderIp targetIp)
    (hreceive : host.receive net frame net') :
    Heard net iface senderIp senderMac (opcode = 0x0100 ∧ targetIp = iface.ipAddr) net' := by
  obtain ⟨behind, padding, hrecv⟩ := hreceive
  have harp := hfields _ (holds_onto frame behind)
  have hheth : ethHdrSize = 14 := rfl
  unfold netRecv at hrecv
  rw [if_neg (by omega)] at hrecv
  dsimp only at hrecv
  rw [if_pos harp.type] at hrecv
  obtain rfl := Option.some.inj hrecv
  have hheard := arpHandle_heard hfirst (m := onto frame behind)
    (show ethHdrSize + arpHdrSize ≤ frame.length + padding by omega)
  rw [harp.opcode, harp.senderMac, harp.senderIp, harp.targetIp] at hheard
  exact hheard

/-! ### The network -/

section Lan

variable {ι : Type} {boot : ι → Net}

/-- A host has this address and this interface. -/
def Owns (boot : ι → Net) (ip : Ip) (mac : Mac) : Prop :=
  ∃ a iface, (boot a).netifs.head? = some iface ∧ iface.ipAddr = ip ∧ iface.mac = mac

/-- Nothing has been sent, and the caches are empty. -/
def Quiet (boot : ι → Net) : Prop :=
  ∀ a, (boot a).sent = [] ∧ ∀ i, ((boot a).arpCache i).valid = false

/-- What this host may say. -/
def MaySay (boot : ι → Net) (a : ι) (frame : List Byte) : Prop :=
  ∃ iface, (boot a).netifs.head? = some iface ∧ TrueFrame (Owns boot) iface frame

/-- A host that has heard and said nothing but the truth. -/
structure Truthful (boot : ι → Net) (a : ι) (net : Net) : Prop where
  netifs : net.netifs = (boot a).netifs
  drivers : net.netDriverCount = (boot a).netDriverCount
  entries : ∀ i, (net.arpCache i).valid = true →
    Owns boot (net.arpCache i).ip (net.arpCache i).mac
  sent : ∀ frame ∈ net.sent, MaySay boot a frame

theorem Truthful.start (hquiet : Quiet boot) (a : ι) : Truthful boot a (boot a) where
  netifs := rfl
  drivers := rfl
  entries := fun i hvalid => by
    rw [(hquiet a).2 i] at hvalid
    exact absurd hvalid (by simp)
  sent := fun frame hin => by
    rw [(hquiet a).1] at hin
    exact absurd hin (by simp)

theorem Truthful.knows {a : ι} {net : Net} (h : Truthful boot a net) {ip : Ip} {mac : Mac}
    (hres : arpResolve net ip = some mac) : Owns boot ip mac := by
  obtain ⟨i, -, hvalid, hip, hmac⟩ := arpResolve_entry hres
  rw [← hip, ← hmac]
  exact h.entries i hvalid

theorem Truthful.wired {a : ι} {net : Net} (h : Truthful boot a net) {iface : NetIf}
    (hwired : Wired (boot a) iface) : Wired net iface :=
  ⟨by rw [h.netifs]; exact hwired.first, by rw [h.netifs, h.drivers]; exact hwired.driver⟩

theorem Truthful.maySay {a : ι} {net : Net} (h : Truthful boot a net) {frame : List Byte}
    (hsaid : Says net frame) : MaySay boot a frame := by
  cases hsaid with
  | request iface hfirst targetIp =>
      rw [h.netifs] at hfirst
      exact ⟨iface, hfirst, .request targetIp⟩
  | packet iface hfirst dstMac dstIp hknown protocol data =>
      rw [h.netifs] at hfirst
      exact ⟨iface, hfirst, .packet dstMac dstIp protocol data (h.knows hknown)⟩

theorem Truthful.calm {a : ι} {net net' : Net} (h : Truthful boot a net) (hcalm : Calm net net') :
    Truthful boot a net' where
  netifs := hcalm.netifs.trans h.netifs
  drivers := hcalm.drivers.trans h.drivers
  entries := by
    rw [hcalm.arpCache]
    exact h.entries
  sent := by
    intro frame hin
    rcases hcalm.sent with hsame | ⟨new, hsaid, hsent⟩
    · rw [hsame] at hin
      exact h.sent frame hin
    · rw [hsent, List.mem_append, List.mem_singleton] at hin
      rcases hin with hold | rfl
      · exact h.sent frame hold
      · exact h.maySay hsaid

theorem Truthful.heard {a : ι} {net net' : Net} (h : Truthful boot a net) {iface : NetIf}
    (hfirst : net.netifs.head? = some iface) {ip : Ip} {mac : Mac} {asked : Prop}
    (hheard : Heard net iface ip mac asked net') (howner : Owns boot ip mac) :
    Truthful boot a net' where
  netifs := hheard.netifs.trans h.netifs
  drivers := hheard.drivers.trans h.drivers
  entries := by
    intro i hvalid
    rw [hheard.arpCache] at hvalid ⊢
    rcases arpCacheAdd_entry hvalid with ⟨hold, hsame⟩ | hnew
    · rw [hsame]
      exact h.entries i hold
    · rw [hnew]
      exact howner
  sent := by
    intro frame hin
    rcases hheard.sent with hsame | hsent
    · rw [hsame] at hin
      exact h.sent frame hin
    · rw [hsent, List.mem_append, List.mem_singleton] at hin
      rcases hin with hold | rfl
      · exact h.sent frame hold
      · rw [h.netifs] at hfirst
        exact ⟨iface, hfirst, .reply mac ip howner⟩

/-- An ARP packet names the host that sent it. -/
theorem MaySay.sender {a : ι} {frame : List Byte} (h : MaySay boot a frame) {m : Mem}
    (hm : Holds m 0 frame) (harp : swap16 (load16 m 12) = 0x0806) :
    Owns boot (load32 m 28) (macAt m 22) := by
  obtain ⟨iface, hfirst, htrue⟩ := h
  have hself : ∀ {dst targetMac : Mac} {opcode : BitVec 16} {targetIp : Ip},
      Holds m 0 (ethHdr dst iface.mac 0x0608 ++
        arpBytes opcode iface.mac iface.ipAddr targetMac targetIp) →
      Owns boot (load32 m 28) (macAt m 22) := by
    intro dst targetMac opcode targetIp hm
    have hfields := arpFields hm
    exact ⟨a, iface, hfirst, hfields.senderIp.symm, hfields.senderMac.symm⟩
  cases htrue with
  | request targetIp => exact hself hm
  | reply targetMac targetIp howner => exact hself hm
  | packet dstMac dstIp protocol data howner =>
      rw [ipFrame_type hm] at harp
      exact absurd harp (by decide)

theorem host_sound (boot : ι → Net) : host.Sound (MaySay boot) (Truthful boot) where
  call := fun h hcall => h.calm (HostCall.run_calm hcall)
  receive := by
    rintro a src frame net net' h hgood ⟨behind, padding, hrecv⟩
    rcases netRecv_cases hrecv with hcalm | ⟨harp, rfl⟩
    · exact h.calm hcalm
    · rcases arpHandle_cases net (onto frame behind) (frame.length + padding) with
        hsame | ⟨iface, hfirst, hheard⟩
      · rw [hsame]
        exact h
      · exact h.heard hfirst hheard (hgood.sender (holds_onto frame behind) harp)
  emits := fun h => h.sent

/-- Only this interface has its address. -/
def OnlyOwner (boot : ι → Net) (iface : NetIf) : Prop :=
  ∀ mac, Owns boot iface.ipAddr mac → mac = iface.mac

theorem Truthful.resolves {a : ι} {net : Net} (h : Truthful boot a net) {iface : NetIf}
    (honly : OnlyOwner boot iface) (hsome : (arpResolve net iface.ipAddr).isSome = true) :
    arpResolve net iface.ipAddr = some iface.mac := by
  obtain ⟨mac, hres⟩ := Option.isSome_iff_exists.mp hsome
  rw [hres, honly mac (h.knows hres)]

variable [DecidableEq ι] {lan : ι → Net} {events : List (Event ι (List Byte) HostCall)}

/--
**Nothing false is learnt or said.**  However the frames of the hosts are delivered, an address is
resolved to the interface of a host that has it.  Every frame that was ever sent names its sender's
own interface, and an IP packet or a reply goes to a host that has the address it is meant for.
-/
theorem lan_truthful (hquiet : Quiet boot) (hrun : Executes host.Step boot events lan) :
    (∀ a ip mac, arpResolve (lan a) ip = some mac → Owns boot ip mac) ∧
      ∀ a, ∀ frame ∈ (lan a).sent, ∃ iface, (lan a).netifs.head? = some iface ∧
        TrueFrame (Owns boot) iface frame := by
  have hall := (host_sound boot).run hrun (Truthful.start hquiet)
  refine ⟨fun a ip mac hres => (hall a).knows hres, fun a frame hin => ?_⟩
  rw [(hall a).netifs]
  exact (hall a).sent frame hin

/--
**Resolution completes.**  Whatever else happens on the network, before, between and after: once a
host has sent to an address it does not know, its request is on the wire for good; once the owner
of the address has received that, its answer is; and once this has come back, the address is
resolved to the owner's interface for good, unless the cache is full.
-/
theorem lan_resolution (hquiet : Quiet boot) {a b : ι} {ia ib : NetIf} (hwa : Wired (boot a) ia)
    (hwb : Wired (boot b) ib) (honly : OnlyOwner boot ib) :
    (∀ protocol data, host.After boot (.call a (.ipSend ib.ipAddr protocol data)) fun lan =>
      arpResolve (lan a) ib.ipAddr = some ib.mac ∨ requestFrame ia ib.ipAddr ∈ (lan a).sent) ∧
    host.After boot (.deliver a b (requestFrame ia ib.ipAddr)) (fun lan =>
      replyFrame ib ia.mac ia.ipAddr ∈ (lan b).sent) ∧
    host.After boot (.deliver b a (replyFrame ib ia.mac ia.ipAddr)) fun lan =>
      CacheFull (lan a) ∨ arpResolve (lan a) ib.ipAddr = some ib.mac := by
  have hsound := host_sound boot
  have hboot := Truthful.start hquiet
  refine ⟨fun protocol data before later lan hrun => ?_, ?_, fun before later lan hrun => ?_⟩
  · have hstable : host.Stable fun net =>
        (arpResolve net ib.ipAddr).isSome = true ∨ requestFrame ia ib.ipAddr ∈ net.sent :=
      stable_of_later fun h hlater =>
        h.imp (resolve_later · hlater) fun hin => hlater.sent.subset hin
    have hafter := Machine.after_call hsound hboot hstable (fun net net' htrue hcall => ?_)
      before later lan hrun
    · exact hafter.imp ((hsound.run hrun hboot a).resolves honly) id
    · rcases ipSend_asks (htrue.wired hwa) hcall with hknown | hasked
      · exact .inl (resolve_later hknown (HostCall.run_calm hcall).later)
      · exact .inr hasked
  · refine Machine.after_deliver hsound hboot (sent_stable _) fun net net' htrue hreceive => ?_
    have hwired := htrue.wired hwb
    have hheard := receive_arp hwired.first (requestFrame_length ia ib.ipAddr)
      (fun m hm => arpFields hm) hreceive
    rw [hheard.answered ⟨rfl, rfl⟩ hwired]
    simp
  · have hafter := Machine.after_deliver hsound hboot (settled_stable ib.ipAddr)
      (fun net net' htrue hreceive => ?_) before later lan hrun
    · exact hafter.imp id ((hsound.run hrun hboot a).resolves honly)
    · have hheard := receive_arp (htrue.wired hwa).first (replyFrame_length ib ia.mac ia.ipAddr)
        (fun m hm => arpFields hm) hreceive
      rcases arpCacheAdd_learns net ib.ipAddr ib.mac with hfull | hlearnt
      · exact .inl (hfull.later hheard.later)
      · right
        unfold arpResolve arpCacheFind at hlearnt ⊢
        rw [hheard.arpCache]
        exact hlearnt

def bootIf (a : Bool) : NetIf :=
  { lanIf (if a then 1 else 2) with mac := Vector.replicate 6 (if a then 0x0A else 0x0B) }

/-- Two hosts that have just come up. -/
def lanBoot (a : Bool) : Net :=
  { lanHost 1 2 with
    netifs := [bootIf a], arpCache := fun _ => ⟨0, Vector.replicate 6 0, false⟩ }

theorem lanBoot_wired (a : Bool) : Wired (lanBoot a) (bootIf a) :=
  ⟨rfl, bootIf a, rfl, Int.le_refl 0, Int.zero_lt_one⟩

theorem lanBoot_quiet : Quiet lanBoot := fun _ => ⟨rfl, fun _ => rfl⟩

/-- One of them asks for the other and is answered: both know each other's interface. -/
theorem lan_truthful_boot :
    ∃ lan, Executes host.Step lanBoot [.call true (.arpRequest 2),
        .deliver true false (requestFrame (bootIf true) 2),
        .deliver false true (replyFrame (bootIf false) (bootIf true).mac 1)] lan ∧
      arpResolve (lan true) 2 = some (bootIf false).mac ∧
      arpResolve (lan false) 1 = some (bootIf true).mac ∧
      (∀ a ip mac, arpResolve (lan a) ip = some mac → Owns lanBoot ip mac) ∧
      ∀ a, ∀ frame ∈ (lan a).sent, ∃ iface, (lan a).netifs.head? = some iface ∧
        TrueFrame (Owns lanBoot) iface frame := by
  let asking := arpRequest (lanBoot true) 2
  obtain ⟨hasked, hends⟩ : asking.sent = [requestFrame (bootIf true) 2] ∧
      ((netRecv (lanBoot false) (onto (requestFrame (bootIf true) 2) fun _ => 0) 42).bind fun told =>
        (netRecv asking (onto (replyFrame (bootIf false) (bootIf true).mac 1) fun _ => 0) 42).map
          fun answered => (told.sent, arpResolve answered 2, arpResolve told 1)) =
        some ([replyFrame (bootIf false) (bootIf true).mac 1], some (bootIf false).mac,
          some (bootIf true).mac) := by decide +kernel
  obtain ⟨told, htold, hrest⟩ := Option.bind_eq_some_iff.mp hends
  obtain ⟨answered, hanswered, hfacts⟩ := Option.map_eq_some_iff.mp hrest
  obtain ⟨hreply, hfacts⟩ := Prod.mk.inj hfacts
  obtain ⟨hknows, hknown⟩ := Prod.mk.inj hfacts
  have hrun : Executes host.Step lanBoot [.call true (.arpRequest 2),
      .deliver true false (requestFrame (bootIf true) 2),
      .deliver false true (replyFrame (bootIf false) (bootIf true).mac 1)]
      (Function.update (Function.update (Function.update lanBoot true asking) false told)
        true answered) := by
    refine .cons ⟨asking, rfl, rfl⟩ (.cons ⟨?_, told, ⟨fun _ => 0, 0, htold⟩, rfl⟩
      (.cons ⟨?_, answered, ⟨fun _ => 0, 0, hanswered⟩, rfl⟩ (.nil _)))
    · have hsent : requestFrame (bootIf true) 2 ∈ asking.sent := by simp [hasked]
      exact hsent
    · have hsent : replyFrame (bootIf false) (bootIf true).mac 1 ∈ told.sent := by simp [hreply]
      exact hsent
  obtain ⟨hlearnt, hsaid⟩ := lan_truthful lanBoot_quiet hrun
  exact ⟨_, hrun, hknows, hknown, hlearnt, hsaid⟩

theorem lan_resolution_boot :
    host.After lanBoot (.deliver false true (replyFrame (bootIf false) (bootIf true).mac 1))
      fun lan => CacheFull (lan true) ∨ arpResolve (lan true) 2 = some (bootIf false).mac := by
  have honly : OnlyOwner lanBoot (bootIf false) := by
    rintro mac ⟨a, iface, hfirst, hip, rfl⟩
    obtain rfl : bootIf a = iface := Option.some.inj hfirst
    cases a with
    | true => exact absurd hip (by decide)
    | false => rfl
  exact (lan_resolution lanBoot_quiet (lanBoot_wired true) (lanBoot_wired false) honly).2.2

end Lan

end BrightS
