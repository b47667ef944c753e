/-
The DHCP client.

Its options are a list of fields, and the loops over them find what the list says, whatever lies
behind the packet (`dhcpMsgType_eq`, `ackLoop_eq`).  A round of the main loop is one of six moves
(`dhcpdRound_move`), and what is known of a run is read off them: an address was offered and then
acknowledged (`lease_agreed`), and only what was offered is asked for (`requests_offered`), as long
as it takes (`offer_kept`).
-/
import BrightS.Kernel.Dhcpd
import BrightS.Lib.Fields
import BrightS.Lib.Refinements

namespace BrightS

open Bytes Fields Records Runs

/-! ### Options -/

/-- A packet in memory has these options. -/
abbrev HasOptions (packet : Mem) (options : List Field) : Prop :=
  Lies packet 255 dhcpOptionsEnd dhcpOptionsOffset options

/-- The address that four bytes are. -/
def dataAddress (data : List Byte) : BitVec 32 := load32 (onto data fun _ => 0) 0

/-- The type of the message, if the option is one byte that says it. -/
def typeOption (f : Field) : Option Byte :=
  if f.code = 53 ∧ f.data.length = 1 then some (f.data.headD 0) else none

/-- The address in an option of the code. -/
def addressOption (code : Byte) (f : Field) : Option (BitVec 32) :=
  if f.code = code ∧ f.data.length = 4 then some (dataAddress f.data) else none

def typeAt (packet : Mem) (opts : Nat) : Option Byte :=
  if packet opts = 53 ∧ packet (opts + 1) = 1 then some (packet (opts + 2)) else none

def addressAt (packet : Mem) (code : Byte) (opts : Nat) : Option (BitVec 32) :=
  if packet opts = code ∧ packet (opts + 1) = 4 then some (load32 packet (opts + 2)) else none

section Options

variable {packet : Mem} {options : List Field} {offs : List Nat}

theorem toNat_eq_iff {b : Byte} {n : Nat} (hn : n < 2 ^ 8) : b = BitVec.ofNat 8 n ↔ b.toNat = n := by
  rw [← BitVec.toNat_inj, BitVec.toNat_ofNat, Nat.mod_eq_of_lt hn]

theorem dataAddress_eq {a : Nat} {data : List Byte} (hdata : Holds packet a data)
    (hlen : data.length = 4) : dataAddress data = load32 packet a := by
  have hbyte : ∀ i, i < 4 → onto data (fun _ => 0) (0 + i) = packet (a + i) := by
    intro i hi
    rw [holds_onto data _ i (by omega), hdata i (by omega)]
  unfold dataAddress load32
  rw [hbyte 3 (by omega), hbyte 2 (by omega), hbyte 1 (by omega), hbyte 0 (by omega)]
  rfl

@[simp] theorem dataAddress_store32 (x : BitVec 32) : dataAddress (store32 x) = x :=
  Holds.load32_eq (holds_onto _ _)

theorem typeAt_field (o : Nat) (f : Field) (h : FieldAt packet o f) :
    typeAt packet o = typeOption f := by
  unfold typeAt typeOption
  have hlen : packet (o + 1) = 1 ↔ f.data.length = 1 := by
    rw [← h.length]
    exact toNat_eq_iff (by decide)
  simp only [h.code, hlen]
  by_cases hone : f.code = 53 ∧ f.data.length = 1
  · rw [if_pos hone, if_pos hone]
    obtain ⟨b, hb⟩ := List.length_eq_one_iff.mp hone.2
    have hdata := h.data
    rw [hb] at hdata ⊢
    rw [hdata.head]
    rfl
  · rw [if_neg hone, if_neg hone]

theorem addressAt_field (code : Byte) (o : Nat) (f : Field) (h : FieldAt packet o f) :
    addressAt packet code o = addressOption code f := by
  unfold addressAt addressOption
  have hlen : packet (o + 1) = 4 ↔ f.data.length = 4 := by
    rw [← h.length]
    exact toNat_eq_iff (by decide)
  simp only [h.code, hlen]
  by_cases hfour : f.code = code ∧ f.data.length = 4
  · rw [if_pos hfour, if_pos hfour, dataAddress_eq h.data hfour.2]
  · rw [if_neg hfour, if_neg hfour]

/-! The loops do not run out of rounds, whatever the packet is. -/

theorem fuel_of_walk (h : Walk (next packet 255 dhcpOptionsEnd) dhcpOptionsOffset offs) :
    ∃ n, dhcpFuel = offs.length + (n + 1) := by
  have hlen : offs.length ≤ dhcpOptionsSize := length_le_of_walk h
  refine ⟨dhcpOptionsSize - offs.length, ?_⟩
  unfold dhcpFuel
  omega

theorem dhcpMsgType_walk (h : Walk (next packet 255 dhcpOptionsEnd) dhcpOptionsOffset offs) :
    dhcpMsgType packet = (offs.findSome? (typeAt packet)).getD 0 := by
  obtain ⟨n, hn⟩ := fuel_of_walk h
  unfold dhcpMsgType
  rw [hn]
  refine find_loop_eq (msgTypeLoop packet) (fun off hend => ?_)
    (fun off off' fuel t hnext hat => ?_) (fun off off' fuel hnext hat => ?_) h
  · rw [msgTypeLoop, if_neg (next_none hend)]
  · obtain ⟨hstop, hlt, -⟩ := next_some hnext
    unfold typeAt at hat
    split_ifs at hat with htype
    rw [msgTypeLoop, if_pos ⟨hstop, hlt⟩, if_pos htype]
    exact Option.some.inj hat
  · obtain ⟨hstop, hlt, rfl⟩ := next_some hnext
    unfold typeAt at hat
    split_ifs at hat with htype
    rw [msgTypeLoop, if_pos ⟨hstop, hlt⟩, if_neg htype]

theorem ackLoop_walk (h : Walk (next packet 255 dhcpOptionsEnd) dhcpOptionsOffset offs)
    (s : Dhcpd) : ackLoop packet dhcpFuel dhcpOptionsOffset s = offs.foldl (ackOption packet) s := by
  obtain ⟨n, hn⟩ := fuel_of_walk h
  rw [hn]
  change _ = id (offs.foldl (ackOption packet) s)
  refine Walk.loop_eq (ackLoop packet) (fun _ _ _ (_ : True) _ => trivial)
    (fun off s _ hend => ?_) (fun off off' fuel s _ hnext => ?_) h trivial
  · rw [ackLoop, if_neg (next_none hend)]
    rfl
  · obtain ⟨hstop, hlt, rfl⟩ := next_some hnext
    rw [ackLoop, if_pos ⟨hstop, hlt⟩]

/-! ### What the loops find -/

theorem ackOption_eq (s : Dhcpd) (opts : Nat) :
    ackOption packet s opts =
      { s with
        gatewayIp := (addressAt packet 3 opts).getD s.gatewayIp
        dnsIp := (addressAt packet 6 opts).getD s.dnsIp } := by
  unfold ackOption addressAt
  by_cases hrouter : packet opts = 3 ∧ packet (opts + 1) = 4
  · have hdns : ¬ (packet opts = 6 ∧ packet (opts + 1) = 4) := fun h => by
      rw [h.1] at hrouter
      exact absurd hrouter.1 (by decide)
    simp only [if_pos hrouter, if_neg hdns, Option.getD_some, Option.getD_none]
  · by_cases hdns : packet opts = 6 ∧ packet (opts + 1) = 4
    · simp only [if_neg hrouter, if_pos hdns, Option.getD_some, Option.getD_none]
    · simp only [if_neg hrouter, if_neg hdns, Option.getD_none]

theorem foldl_ackOption (offs : List Nat) (s : Dhcpd) :
    offs.foldl (ackOption packet) s =
      { s with
        gatewayIp := ((offs.filterMap (addressAt packet 3)).getLast?).getD s.gatewayIp
        dnsIp := ((offs.filterMap (addressAt packet 6)).getLast?).getD s.dnsIp } := by
  induction offs generalizing s with
  | nil => rfl
  | cons o offs ih =>
      rw [List.foldl_cons, ih, ackOption_eq, List.filterMap_cons, List.filterMap_cons]
      cases addressAt packet 3 o <;> cases addressAt packet 6 o <;>
        simp [List.getLast?_cons]

/-- **The type of a message** is what the first option says that gives one. -/
theorem dhcpMsgType_eq (h : HasOptions packet options) :
    dhcpMsgType packet = (options.findSome? typeOption).getD 0 := by
  rw [dhcpMsgType_walk h.walk, findSome_fields typeAt_field h.fieldsAt]

/-- **The gateway and the name server** are those of the last options that give one. -/
theorem ackLoop_eq (h : HasOptions packet options) (s : Dhcpd) :
    ackLoop packet dhcpFuel dhcpOptionsOffset s =
      { s with
        gatewayIp := ((options.filterMap (addressOption 3)).getLast?).getD s.gatewayIp
        dnsIp := ((options.filterMap (addressOption 6)).getLast?).getD s.dnsIp } := by
  rw [ackLoop_walk h.walk, foldl_ackOption, filterMap_fields (addressAt_field 3) h.fieldsAt,
    filterMap_fields (addressAt_field 6) h.fieldsAt]

/-- **Options are understood**: a packet has no more than one list of them, and the client finds
what it says. -/
theorem options_understood (h : HasOptions packet options) (s : Dhcpd) (configured : Int) :
    (∀ options', HasOptions packet options' → options' = options) ∧
      dhcpMsgType packet = (options.findSome? typeOption).getD 0 ∧
      (dhcpYiaddr packet = s.clientIp → dhcpProcessAck s packet configured =
        ({ s with
            gatewayIp := ((options.filterMap (addressOption 3)).getLast?).getD s.gatewayIp
            dnsIp := ((options.filterMap (addressOption 6)).getLast?).getD s.dnsIp },
          if configured = 0 then 0 else -1)) := by
  refine ⟨fun options' h' => h'.unique h, dhcpMsgType_eq h, fun hyiaddr => ?_⟩
  unfold dhcpProcessAck
  rw [if_neg (not_not.mpr hyiaddr), ackLoop_eq h]

/-- A packet with a gateway, 1.2.3.4 in the byte order of the network. -/
def routerPacket : Mem := fun i =>
  if i < 240 then 0 else [53, 1, 5, 3, 4, 1, 2, 3, 4, 255].getD (i - 240) 0

theorem routerPacket_options : HasOptions routerPacket
    [⟨53, [5], by decide⟩, ⟨3, [1, 2, 3, 4], by decide⟩] := by
  refine ⟨by decide, by decide, ?_, fun _ => by decide⟩
  intro i hi
  have hlt : i < 9 := hi
  interval_cases i <;> rfl

theorem options_understood_router : dhcpMsgType routerPacket = 5 ∧
    (dhcpProcessAck ⟨0, 0, 0, 0, 0, .request, 0⟩ routerPacket 0).1.gatewayIp = 0x04030201 := by
  obtain ⟨-, htype, hack⟩ := options_understood routerPacket_options ⟨0, 0, 0, 0, 0, .request, 0⟩ 0
  rw [htype, hack (by decide)]
  exact ⟨by decide, by decide⟩

end Options

/-! ### Packets of the client -/

section Packets

variable {xid siaddr : BitVec 32} {flags : BitVec 16} {behind : Mem} {options : List Field}

/-- The members before the options. -/
def dhcpHeader (xid : BitVec 32) (flags : BitVec 16) (siaddr : BitVec 32) : List Byte :=
  [1, 1, 6, 0] ++ (store32 xid ++ (store16 0 ++ (store16 flags ++ (store32 0 ++ (store32 0 ++
    (store32 siaddr ++ (store32 0 ++ (dhcpChaddr ++ (List.replicate 64 0 ++
    (List.replicate 128 0 ++ store32 0x63825363))))))))))

theorem dhcpPacket_eq (opts : List Byte) : dhcpPacket xid flags siaddr opts =
    dhcpHeader xid flags siaddr ++ (opts ++ List.replicate (dhcpOptionsSize - opts.length) 0) := by
  unfold dhcpPacket dhcpHeader
  simp only [List.append_assoc]

theorem length_dhcpHeader : (dhcpHeader xid flags siaddr).length = dhcpOptionsOffset := by
  unfold dhcpHeader dhcpChaddr dhcpOptionsOffset
  simp only [List.length_append, List.length_replicate, length_store32, length_store16,
    List.length_cons, List.length_nil]

theorem header_holds (opts : List Byte) :
    Holds (onto (dhcpPacket xid flags siaddr opts) behind) 0 (dhcpHeader xid flags siaddr) := by
  have hholds := holds_onto (dhcpPacket xid flags siaddr opts) behind
  rw [dhcpPacket_eq] at hholds ⊢
  exact hholds.left

theorem dhcpXid_packet (opts : List Byte) :
    dhcpXid (onto (dhcpPacket xid flags siaddr opts) behind) = xid :=
  (header_holds opts).right.left.load32_eq

/-- Fields that leave room for the end are the options of the packet. -/
theorem hasOptions_packet (hcodes : ∀ f ∈ options, f.code ≠ 255)
    (hroom : (encode options).length < dhcpOptionsSize) :
    HasOptions (onto (dhcpPacket xid flags siaddr (encode options ++ [255])) behind) options := by
  have hholds := holds_onto (dhcpPacket xid flags siaddr (encode options ++ [255])) behind
  have hopts : Holds (onto (dhcpPacket xid flags siaddr (encode options ++ [255])) behind)
      dhcpOptionsOffset (encode options ++ [255]) := by
    rw [dhcpPacket_eq] at hholds ⊢
    have hright := hholds.right
    rw [Nat.zero_add, length_dhcpHeader] at hright
    exact hright.left
  exact ⟨hcodes, by unfold dhcpOptionsEnd; omega, hopts.left, fun _ => hopts.right.head⟩

/-- What the client lists in a DISCOVER. -/
def discoverOptions : List Field := [⟨53, [1], by decide⟩, ⟨55, [1, 3, 6, 15], by decide⟩]

def addressField (code : Byte) (ip : BitVec 32) : Field :=
  ⟨code, store32 ip, by rw [length_store32]; decide⟩

/-- What it lists in a REQUEST. -/
def requestOptions (clientIp serverIp : BitVec 32) : List Field :=
  [⟨53, [3], by decide⟩, addressField 50 clientIp, addressField 54 serverIp]

theorem dhcpDiscover_eq (xid : BitVec 32) :
    dhcpDiscover xid = dhcpPacket xid 0x8000 0 (encode discoverOptions ++ [255]) := rfl

theorem dhcpRequest_eq (xid clientIp serverIp : BitVec 32) :
    dhcpRequest xid clientIp serverIp =
      dhcpPacket xid 0 serverIp (encode (requestOptions clientIp serverIp) ++ [255]) := rfl

end Packets

/-! ### Answers -/

/-- What was received in the round is a reply to the client, of the type. -/
structure DhcpRound.Answers (r : DhcpRound) (xid : BitVec 32) (type : Byte) : Prop where
  received : 0 < r.received
  xid : dhcpXid r.response = xid
  op : dhcpOp r.response = 2
  type : dhcpMsgType r.response = type

/-- The reply offers the address. -/
structure DhcpRound.Offers (r : DhcpRound) (xid ip server : BitVec 32) : Prop where
  answers : r.Answers xid 2
  yiaddr : dhcpYiaddr r.response = ip
  siaddr : dhcpSiaddr r.response = server
  ne_zero : ip ≠ 0

/-- The reply acknowledges the address, and the interface takes it. -/
structure DhcpRound.Acks (r : DhcpRound) (xid ip : BitVec 32) : Prop where
  answers : r.Answers xid 5
  yiaddr : dhcpYiaddr r.response = ip
  configured : r.configured = 0

/-! ### The moves of a round -/

/-- The lease is over by now. -/
def DhcpRound.Over (r : DhcpRound) (lastSend : Int) : Prop := 300000 < r.now - lastSend

/-- What a round does to the address that the client has or wants. -/
inductive DhcpMove (s : Dhcpd) (r : DhcpRound) (s' : Dhcpd) : Prop
  | searches (hbefore : s.state = .discover) (hafter : s'.state = .discover)
      (hclient : s'.clientIp = s.clientIp) (hno : ∀ ip server, ¬ r.Offers s.xid ip server)
  | offered (hbefore : s.state = .discover) (hafter : s'.state = .request)
      (hoffer : r.Offers s.xid s'.clientIp s'.serverIp)
  | asks (hbefore : s.state = .request) (hafter : s'.state = .request)
      (hclient : s'.clientIp = s.clientIp) (hserver : s'.serverIp = s.serverIp)
      (hno : ¬ r.Acks s.xid s.clientIp)
  | leased (hbefore : s.state = .request) (hafter : s'.state = .bound)
      (hclient : s'.clientIp = s.clientIp) (hserver : s'.serverIp = s.serverIp)
      (hack : r.Acks s.xid s.clientIp) (htime : ¬ r.Over s'.lastSend)
  | keeps (hbefore : s.state = .bound) (hafter : s'.state = .bound)
      (hclient : s'.clientIp = s.clientIp) (hserver : s'.serverIp = s.serverIp)
      (hsend : s'.lastSend = s.lastSend) (htime : ¬ r.Over s'.lastSend)
  | loses (hbefore : s.state = .bound ∧ r.Over s.lastSend ∨
        s.state = .request ∧ r.Acks s.xid s.clientIp)
      (hafter : s'.state = .discover) (hclient : s'.clientIp = 0)

section Round

variable {s s' : Dhcpd} {r : DhcpRound}

/-- Of the packets that the daemon may send. -/
structure DhcpSends (s : Dhcpd) (packet : List Byte) : Prop where
  discover : s.state = .discover → packet = dhcpDiscover s.xid
  request : s.state = .request → packet = dhcpRequest s.xid s.clientIp s.serverIp
  silent : s.state ≠ .bound

/-- Sending changes the time of the last packet only. -/
theorem dhcpdSend_eq (s : Dhcpd) (r : DhcpRound) :
    ∃ t, (dhcpdSend s r).1 = { s with lastSend := t } ∧ (s.state = .bound → t = s.lastSend) ∧
      ∀ packet ∈ (dhcpdSend s r).2, DhcpSends s packet := by
  unfold dhcpdSend
  by_cases hdiscover : s.state = .discover ∧ (s.lastSend = 0 ∨ 5000 < r.now - s.lastSend)
  · rw [if_pos hdiscover]
    refine ⟨if 0 < r.sent then r.now else s.lastSend, ?_, fun hbound => ?_, fun packet hp => ?_⟩
    · by_cases hsent : 0 < r.sent <;> simp only [hsent, if_true, if_false]
    · rw [hdiscover.1] at hbound
      cases hbound
    · obtain rfl := Option.mem_some_iff.mp hp
      refine ⟨fun _ => rfl, fun h => ?_, fun h => ?_⟩ <;>
      · rw [hdiscover.1] at h
        cases h
  rw [if_neg hdiscover]
  by_cases hrequest : s.state = .request ∧ 2000 < r.now - s.lastSend
  · rw [if_pos hrequest]
    refine ⟨if 0 < r.sent then r.now else s.lastSend, ?_, fun hbound => ?_, fun packet hp => ?_⟩
    · by_cases hsent : 0 < r.sent <;> simp only [hsent, if_true, if_false]
    · rw [hrequest.1] at hbound
      cases hbound
    · obtain rfl := Option.mem_some_iff.mp hp
      refine ⟨fun h => ?_, fun _ => rfl, fun h => ?_⟩ <;>
      · rw [hrequest.1] at h
        cases h
  · rw [if_neg hrequest]
    exact ⟨s.lastSend, rfl, fun _ => rfl, fun packet hp => by cases hp⟩

/-- An acknowledgment changes no more than the gateway and the name server. -/
theorem ackLoop_frame (packet : Mem) (s : Dhcpd) : ∃ gateway dns,
    ackLoop packet dhcpFuel dhcpOptionsOffset s =
      { s with gatewayIp := gateway, dnsIp := dns } := by
  obtain ⟨offs, hwalk⟩ := exists_fields packet 255 dhcpOptionsEnd dhcpOptionsOffset
  rw [ackLoop_walk hwalk, foldl_ackOption]
  exact ⟨_, _, rfl⟩

/-- Whatever is received, the transaction stays the same. -/
inductive DhcpReceipt (s : Dhcpd) (r : DhcpRound) (s' : Dhcpd) : Prop
  | offered (hbefore : s.state = .discover)
      (hoffer : r.Offers s.xid (dhcpYiaddr r.response) (dhcpSiaddr r.response))
      (hafter : s' = { s with
        clientIp := dhcpYiaddr r.response, serverIp := dhcpSiaddr r.response, state := .request
        lastSend := 0 })
  | acked (hbefore : s.state = .request) (hack : r.Acks s.xid s.clientIp)
      (hafter : ∃ gateway dns, s' =
        { s with gatewayIp := gateway, dnsIp := dns, state := .bound })
  | other (hoffers : s.state = .discover → ∀ ip server, ¬ r.Offers s.xid ip server)
      (hacks : s.state = .request → ¬ r.Acks s.xid s.clientIp)
      (hafter : ∃ gateway dns, s' = { s with gatewayIp := gateway, dnsIp := dns })

theorem dhcpdReceive_receipt (s : Dhcpd) (r : DhcpRound) : DhcpReceipt s r (dhcpdReceive s r) := by
  unfold dhcpdReceive
  by_cases hreply : (0 < r.received ∧ dhcpXid r.response = s.xid) ∧ dhcpOp r.response = 2
  swap
  · rw [if_neg hreply]
    have hno : ∀ type, ¬ r.Answers s.xid type := fun type h =>
      hreply ⟨⟨h.received, h.xid⟩, h.op⟩
    exact .other (fun _ ip server h => hno 2 h.answers) (fun _ h => hno 5 h.answers) ⟨_, _, rfl⟩
  rw [if_pos hreply]
  by_cases hoffer : dhcpMsgType r.response = 2 ∧ s.state = .discover
  · rw [if_pos hoffer]
    have hack : s.state = .request → ¬ r.Acks s.xid s.clientIp := fun h => by
      rw [hoffer.2] at h
      cases h
    unfold dhcpProcessOffer
    by_cases hzero : dhcpYiaddr r.response = 0
    · rw [if_pos hzero]
      exact .other (fun _ ip server h => h.ne_zero (h.yiaddr.symm.trans hzero)) hack ⟨_, _, rfl⟩
    · rw [if_neg hzero]
      exact .offered hoffer.2
        ⟨⟨hreply.1.1, hreply.1.2, hreply.2, hoffer.1⟩, rfl, rfl, hzero⟩ rfl
  rw [if_neg hoffer]
  have hoffers : s.state = .discover → ∀ ip server, ¬ r.Offers s.xid ip server :=
    fun h ip server h' => hoffer ⟨h'.answers.type, h⟩
  by_cases hack : dhcpMsgType r.response = 5 ∧ s.state = .request
  swap
  · rw [if_neg hack]
    exact .other hoffers (fun h h' => hack ⟨h'.answers.type, h⟩) ⟨_, _, rfl⟩
  rw [if_pos hack]
  unfold dhcpProcessAck
  by_cases hyiaddr : dhcpYiaddr r.response ≠ s.clientIp
  · rw [if_pos hyiaddr]
    exact .other hoffers (fun _ h => hyiaddr h.yiaddr) ⟨_, _, rfl⟩
  rw [if_neg hyiaddr]
  obtain ⟨gateway, dns, hloop⟩ := ackLoop_frame r.response s
  by_cases hconfigured : r.configured = 0
  · simp only [if_pos hconfigured, if_true, hloop]
    exact .acked hack.2 ⟨⟨hreply.1.1, hreply.1.2, hreply.2, hack.1⟩, not_not.mp hyiaddr,
      hconfigured⟩ ⟨gateway, dns, rfl⟩
  · simp only [if_neg hconfigured, hloop]
    exact .other hoffers (fun _ h => hconfigured h.configured) ⟨gateway, dns, rfl⟩

theorem dhcpdExpire_over (hbound : s.state = .bound) (hover : r.Over s.lastSend) :
    dhcpdExpire s r = { s with state := .discover, lastSend := 0, clientIp := 0 } :=
  if_pos ⟨hbound, hover⟩

theorem dhcpdExpire_keep (hkeep : s.state = .bound → ¬ r.Over s.lastSend) : dhcpdExpire s r = s :=
  if_neg fun h => hkeep h.1 h.2

theorem Dhcpd.state_cases (s : Dhcpd) :
    s.state = .discover ∨ s.state = .request ∨ s.state = .bound := by
  cases s.state <;> simp

/-- **Every round is a move**, in the same transaction. -/
theorem dhcpdRound_move (s : Dhcpd) (r : DhcpRound) :
    (dhcpdRound s r).1.xid = s.xid ∧ DhcpMove s r (dhcpdRound s r).1 := by
  obtain ⟨t, hsend, hbound, -⟩ := dhcpdSend_eq s r
  have hround : (dhcpdRound s r).1 = dhcpdExpire (dhcpdReceive { s with lastSend := t } r) r := by
    rw [← hsend]
    rfl
  rw [hround]
  cases dhcpdReceive_receipt { s with lastSend := t } r with
  | offered hbefore hoffer hafter =>
      rw [hafter, dhcpdExpire_keep fun hs => by cases hs]
      exact ⟨rfl, .offered hbefore rfl hoffer⟩
  | acked hbefore hack hafter =>
      obtain ⟨gateway, dns, hafter⟩ := hafter
      rw [hafter]
      by_cases hover : r.Over t
      · rw [dhcpdExpire_over rfl hover]
        exact ⟨rfl, .loses (.inr ⟨hbefore, hack⟩) rfl rfl⟩
      · rw [dhcpdExpire_keep fun _ => hover]
        exact ⟨rfl, .leased hbefore rfl rfl rfl hack hover⟩
  | other hoffers hacks hafter =>
      obtain ⟨gateway, dns, hafter⟩ := hafter
      rw [hafter]
      rcases s.state_cases with hstate | hstate | hstate
      · rw [dhcpdExpire_keep fun hs => by rw [hstate] at hs; cases hs]
        exact ⟨rfl, .searches hstate hstate rfl (hoffers hstate)⟩
      · rw [dhcpdExpire_keep fun hs => by rw [hstate] at hs; cases hs]
        exact ⟨rfl, .asks hstate hstate rfl rfl (hacks hstate)⟩
      · obtain rfl := hbound hstate
        by_cases hover : r.Over s.lastSend
        · rw [dhcpdExpire_over (by exact hstate) (by exact hover)]
          exact ⟨rfl, .loses (.inl ⟨hstate, hover⟩) rfl rfl⟩
        · rw [dhcpdExpire_keep fun _ => by exact hover]
          exact ⟨rfl, .keeps hstate hstate rfl rfl rfl hover⟩

theorem dhcpdRound_sends (s : Dhcpd) (r : DhcpRound) :
    ∀ packet ∈ (dhcpdRound s r).2, DhcpSends s packet := by
  obtain ⟨t, -, -, hsends⟩ := dhcpdSend_eq s r
  exact hsends

end Round

/-! ### Runs -/

/-- The daemon, and all packets that it has handed to the socket. -/
structure DhcpRun where
  daemon : Dhcpd
  sent : List (List Byte)

def DhcpStep (s : DhcpRun) (r : DhcpRound) (s' : DhcpRun) : Prop :=
  s' = ⟨(dhcpdRound s.daemon r).1, s.sent ++ (dhcpdRound s.daemon r).2.toList⟩

/-- The address was offered in one of the rounds, and not acknowledged since. -/
def Asking (rounds : List DhcpRound) (s : Dhcpd) : Prop :=
  ∃ before offer later, rounds = before ++ offer :: later ∧
    offer.Offers s.xid s.clientIp s.serverIp ∧ ∀ r ∈ later, ¬ r.Acks s.xid s.clientIp

/-- The address was offered, later acknowledged, and the lease is not over since. -/
def Leased (rounds : List DhcpRound) (s : Dhcpd) : Prop :=
  ∃ before offer between ack later, rounds = before ++ offer :: (between ++ ack :: later) ∧
    offer.Offers s.xid s.clientIp s.serverIp ∧ (∀ r ∈ between, ¬ r.Acks s.xid s.clientIp) ∧
    ack.Acks s.xid s.clientIp ∧ ∀ r ∈ ack :: later, ¬ r.Over s.lastSend

/-- What the state of the daemon says of the rounds so far. -/
structure Agreed (rounds : List DhcpRound) (s : Dhcpd) : Prop where
  discover : s.state = .discover ↔ s.clientIp = 0
  request : s.state = .request → Asking rounds s
  bound : s.state = .bound → Leased rounds s

section Runs

variable {s s' : Dhcpd} {r : DhcpRound} {rounds : List DhcpRound}

theorem Agreed.ne_zero (h : Agreed rounds s) (hstate : s.state ≠ .discover) : s.clientIp ≠ 0 :=
  fun hzero => hstate (h.discover.mpr hzero)

theorem Agreed.move (h : Agreed rounds s) (hxid : s'.xid = s.xid) (hmove : DhcpMove s r s') :
    Agreed (rounds ++ [r]) s' := by
  cases hmove with
  | searches hbefore hafter hclient hno =>
      refine ⟨?_, fun hs => ?_, fun hs => ?_⟩
      · rw [hafter, hclient]
        exact ⟨fun _ => h.discover.mp hbefore, fun _ => rfl⟩
      · rw [hafter] at hs
        cases hs
      · rw [hafter] at hs
        cases hs
  | offered hbefore hafter hoffer =>
      refine ⟨?_, fun _ => ?_, fun hs => ?_⟩
      · rw [hafter]
        exact ⟨fun hs => (by cases hs), fun hs => absurd hs hoffer.ne_zero⟩
      · refine ⟨rounds, r, [], rfl, ?_, fun _ hr => absurd hr List.not_mem_nil⟩
        rw [hxid]
        exact hoffer
      · rw [hafter] at hs
        cases hs
  | asks hbefore hafter hclient hserver hno =>
      have hne := h.ne_zero (by rw [hbefore]; exact fun hs => by cases hs)
      refine ⟨?_, fun _ => ?_, fun hs => ?_⟩
      · rw [hafter, hclient]
        exact ⟨fun hs => (by cases hs), fun hs => absurd hs hne⟩
      · obtain ⟨before, offer, later, rfl, hoffer, hlater⟩ := h.request hbefore
        refine ⟨before, offer, later ++ [r], by simp, ?_, ?_⟩
        · rw [hxid, hclient, hserver]
          exact hoffer
        · rw [hxid, hclient]
          exact List.forall_mem_append.mpr ⟨hlater, List.forall_mem_singleton.mpr hno⟩
      · rw [hafter] at hs
        cases hs
  | leased hbefore hafter hclient hserver hack htime =>
      have hne := h.ne_zero (by rw [hbefore]; exact fun hs => by cases hs)
      refine ⟨?_, fun hs => ?_, fun _ => ?_⟩
      · rw [hafter, hclient]
        exact ⟨fun hs => (by cases hs), fun hs => absurd hs hne⟩
      · rw [hafter] at hs
        cases hs
      · obtain ⟨before, offer, later, rfl, hoffer, hlater⟩ := h.request hbefore
        refine ⟨before, offer, later, r, [], by simp, ?_⟩
        rw [hxid, hclient, hserver]
        exact ⟨hoffer, hlater, hack, List.forall_mem_singleton.mpr htime⟩
  | keeps hbefore hafter hclient hserver hsend htime =>
      have hne := h.ne_zero (by rw [hbefore]; exact fun hs => by cases hs)
      refine ⟨?_, fun hs => ?_, fun _ => ?_⟩
      · rw [hafter, hclient]
        exact ⟨fun hs => (by cases hs), fun hs => absurd hs hne⟩
      · rw [hafter] at hs
        cases hs
      · obtain ⟨before, offer, between, ack, later, rfl, hoffer, hbetween, hack, hlater⟩ :=
          h.bound hbefore
        refine ⟨before, offer, between, ack, later ++ [r], by simp, ?_⟩
        rw [hsend] at htime
        rw [hxid, hclient, hserver, hsend]
        refine ⟨hoffer, hbetween, hack, ?_⟩
        rw [← List.cons_append]
        exact List.forall_mem_append.mpr ⟨hlater, List.forall_mem_singleton.mpr htime⟩
  | loses hbefore hafter hclient =>
      refine ⟨?_, fun hs => ?_, fun hs => ?_⟩
      · rw [hafter, hclient]
        exact ⟨fun _ => rfl, fun _ => rfl⟩
      · rw [hafter] at hs
        cases hs
      · rw [hafter] at hs
        cases hs

theorem dhcpdStart_eq {sockfd bind clock : Int} (h : dhcpdStart sockfd bind clock = some s) :
    s.clientIp = 0 ∧ s.state = .discover := by
  unfold dhcpdStart at h
  split_ifs at h
  obtain rfl := Option.some.inj h
  exact ⟨rfl, rfl⟩

theorem agreed_start (hclient : s.clientIp = 0) (hstate : s.state = .discover) : Agreed [] s := by
  refine ⟨⟨fun _ => hclient, fun _ => hstate⟩, fun hs => ?_, fun hs => ?_⟩
  · rw [hstate] at hs
    cases hs
  · rw [hstate] at hs
    cases hs

/-- **A lease was agreed on.** -/
theorem lease_agreed {sockfd bind clock : Int} {start : Dhcpd} {run : DhcpRun}
    (hstart : dhcpdStart sockfd bind clock = some start)
    (hrun : Executes DhcpStep ⟨start, []⟩ rounds run) :
    run.daemon.xid = start.xid ∧ Agreed rounds run.daemon := by
  obtain ⟨hclient, hstate⟩ := dhcpdStart_eq hstart
  refine Executes.history (P := fun run rounds =>
    run.daemon.xid = start.xid ∧ Agreed rounds run.daemon) ?_ hrun
    ⟨rfl, agreed_start hclient hstate⟩
  rintro run rounds r run' ⟨hxid, hagreed⟩ rfl
  obtain ⟨hsame, hmove⟩ := dhcpdRound_move run.daemon r
  exact ⟨hsame.trans hxid, hagreed.move hsame hmove⟩

/-- A reply of the type, to transaction 0, with the address 5. -/
def replyPacket (type : Byte) : Mem := fun i =>
  if i = 0 then 2 else if i = 16 then 5 else if i = 240 then 53 else if i = 241 then 1 else
  if i = 242 then type else if i = 243 then 255 else 0

def replyRound (type : Byte) : DhcpRound :=
  { now := 3000, sent := 1, received := 552, response := replyPacket type, configured := 0 }

theorem lease_agreed_two : ∃ start run, dhcpdStart 3 0 0 = some start ∧
    Executes DhcpStep ⟨start, []⟩ [replyRound 2, replyRound 5] run ∧ run.daemon.state = .bound ∧
    Leased [replyRound 2, replyRound 5] run.daemon := by
  refine ⟨_, _, rfl, .cons rfl (.cons rfl (.nil _)), by decide, ?_⟩
  exact (lease_agreed (rfl : dhcpdStart 3 0 0 = some _)
    (.cons rfl (.cons rfl (.nil _)))).2.bound (by decide)

/-! ### What is sent -/

/-- A packet in memory: its transaction, its type, and the addresses it asks for and names. -/
structure DhcpReads (packet : Mem) (xid : BitVec 32) (type : Byte)
    (requested server : Option (BitVec 32)) : Prop where
  xid : dhcpXid packet = xid
  type : dhcpMsgType packet = type
  addresses : ∃ options, HasOptions packet options ∧
    options.filterMap (addressOption 50) = requested.toList ∧
    options.filterMap (addressOption 54) = server.toList

theorem dhcpDiscover_reads (xid : BitVec 32) (behind : Mem) :
    DhcpReads (onto (dhcpDiscover xid) behind) xid 1 none none := by
  rw [dhcpDiscover_eq]
  have hoptions : HasOptions (onto (dhcpPacket xid 0x8000 0 (encode discoverOptions ++ [255])) behind)
      discoverOptions := hasOptions_packet (by decide) (by decide)
  exact ⟨dhcpXid_packet _, dhcpMsgType_eq hoptions, _, hoptions, by decide, by decide⟩

theorem dhcpRequest_reads (xid ip server : BitVec 32) (behind : Mem) :
    DhcpReads (onto (dhcpRequest xid ip server) behind) xid 3 (some ip) (some server) := by
  rw [dhcpRequest_eq]
  have hcodes : ∀ f ∈ requestOptions ip server, f.code ≠ 255 := by
    simp [requestOptions, addressField]
  have hoptions : HasOptions
      (onto (dhcpPacket xid 0 server (encode (requestOptions ip server) ++ [255])) behind)
      (requestOptions ip server) :=
    hasOptions_packet hcodes (by simp [requestOptions, addressField, dhcpOptionsSize])
  refine ⟨dhcpXid_packet _, dhcpMsgType_eq hoptions, _, hoptions, ?_, ?_⟩
  · simp [requestOptions, addressField, addressOption]
  · simp [requestOptions, addressField, addressOption]

theorem length_dhcpPacket {xid siaddr : BitVec 32} {flags : BitVec 16} {opts : List Byte}
    (hroom : opts.length ≤ dhcpOptionsSize) :
    (dhcpPacket xid flags siaddr opts).length = dhcpOptionsEnd := by
  rw [dhcpPacket_eq, List.length_append, List.length_append, List.length_replicate,
    length_dhcpHeader]
  unfold dhcpOptionsEnd
  omega

/-- Of a packet that was sent: it looks for a server, or asks for what one of them offered. -/
def SentFor (rounds : List DhcpRound) (xid : BitVec 32) (packet : List Byte) : Prop :=
  packet = dhcpDiscover xid ∨
    ∃ offer ∈ rounds, ∃ ip server, offer.Offers xid ip server ∧ packet = dhcpRequest xid ip server

theorem SentFor.snoc {xid : BitVec 32} {packet : List Byte} (h : SentFor rounds xid packet)
    (r : DhcpRound) : SentFor (rounds ++ [r]) xid packet := by
  rcases h with hdiscover | ⟨offer, hin, ip, server, hoffer, hrequest⟩
  · exact .inl hdiscover
  · exact .inr ⟨offer, List.mem_append_left _ hin, ip, server, hoffer, hrequest⟩

theorem Agreed.sentFor (h : Agreed rounds s) {packet : List Byte} (hsends : DhcpSends s packet) :
    SentFor rounds s.xid packet := by
  rcases s.state_cases with hstate | hstate | hstate
  · exact .inl (hsends.discover hstate)
  · obtain ⟨before, offer, later, rfl, hoffer, -⟩ := h.request hstate
    exact .inr ⟨offer, List.mem_append_right _ (List.mem_cons_self ..), _, _, hoffer,
      hsends.request hstate⟩
  · exact absurd hstate hsends.silent

/-- **The client asks for what it was offered**, and its packets say so to whoever reads them. -/
theorem requests_offered {sockfd bind clock : Int} {start : Dhcpd} {run : DhcpRun}
    (hstart : dhcpdStart sockfd bind clock = some start)
    (hrun : Executes DhcpStep ⟨start, []⟩ rounds run) :
    ∀ packet ∈ run.sent, packet.length = dhcpOptionsEnd ∧ ∀ behind,
      DhcpReads (onto packet behind) start.xid 1 none none ∨
        ∃ offer ∈ rounds, ∃ ip server, offer.Offers start.xid ip server ∧
          DhcpReads (onto packet behind) start.xid 3 (some ip) (some server) := by
  obtain ⟨hclient, hstate⟩ := dhcpdStart_eq hstart
  have hsent : (run.daemon.xid = start.xid ∧ Agreed rounds run.daemon) ∧
      ∀ packet ∈ run.sent, SentFor rounds start.xid packet := by
    refine Executes.history (P := fun run rounds =>
      (run.daemon.xid = start.xid ∧ Agreed rounds run.daemon) ∧
        ∀ packet ∈ run.sent, SentFor rounds start.xid packet) ?_ hrun
      ⟨⟨rfl, agreed_start hclient hstate⟩, fun _ hp => absurd hp List.not_mem_nil⟩
    rintro run rounds r run' ⟨⟨hxid, hagreed⟩, hpackets⟩ rfl
    obtain ⟨hsame, hmove⟩ := dhcpdRound_move run.daemon r
    refine ⟨⟨hsame.trans hxid, hagreed.move hsame hmove⟩, fun packet hp => ?_⟩
    rcases List.mem_append.mp hp with hold | hnew
    · exact (hpackets packet hold).snoc r
    · have hsends := dhcpdRound_sends run.daemon r packet (Option.mem_toList.mp hnew)
      rw [← hxid]
      exact (hagreed.sentFor hsends).snoc r
  intro packet hp
  rcases hsent.2 packet hp with rfl | ⟨offer, hin, ip, server, hoffer, rfl⟩
  · exact ⟨length_dhcpPacket (by decide), fun behind => .inl (dhcpDiscover_reads _ behind)⟩
  · exact ⟨length_dhcpPacket (by simp [dhcpOptionsSize]), fun behind =>
      .inr ⟨offer, hin, ip, server, hoffer, dhcpRequest_reads _ _ _ behind⟩⟩

theorem requests_offered_two : ∃ start run, dhcpdStart 3 0 0 = some start ∧
    Executes DhcpStep ⟨start, []⟩ [replyRound 2, replyRound 5] run ∧ run.sent.length = 2 ∧
    ∀ packet ∈ run.sent, packet.length = dhcpOptionsEnd := by
  refine ⟨_, _, rfl, .cons rfl (.cons rfl (.nil _)), by decide, fun packet hp => ?_⟩
  exact (requests_offered (rfl : dhcpdStart 3 0 0 = some _)
    (.cons rfl (.cons rfl (.nil _))) packet hp).1

/-- **An offer is kept**: without an acknowledgment of its address nothing else is asked for. -/
theorem offer_kept {run run' : DhcpRun} (hstate : run.daemon.state = .request)
    (hrun : Executes DhcpStep run rounds run')
    (hno : ∀ r ∈ rounds, ¬ r.Acks run.daemon.xid run.daemon.clientIp) :
    run'.daemon.state = .request ∧ run'.daemon.clientIp = run.daemon.clientIp ∧
      run'.daemon.serverIp = run.daemon.serverIp ∧
      ∃ n, n ≤ rounds.length ∧ run'.sent = run.sent ++ List.replicate n
        (dhcpRequest run.daemon.xid run.daemon.clientIp run.daemon.serverIp) := by
  induction hrun with
  | nil run => exact ⟨hstate, rfl, rfl, 0, le_rfl, by simp⟩
  | @cons run mid last r rest hstep hrest ih =>
      subst hstep
      obtain ⟨hxid, hmove⟩ := dhcpdRound_move run.daemon r
      obtain ⟨hack, hrest⟩ := List.forall_mem_cons.mp hno
      cases hmove with
      | asks hbefore hafter hclient hserver _ =>
          obtain ⟨hs, hc, hv, n, hn, hsent⟩ := ih hafter (by simpa only [hxid, hclient] using hrest)
          refine ⟨hs, hc.trans hclient, hv.trans hserver, ?_⟩
          rw [hsent]
          simp only [hxid, hclient, hserver]
          cases hpacket : (dhcpdRound run.daemon r).2 with
          | none => exact ⟨n, by simp; omega, by simp⟩
          | some packet =>
              have hsends := (dhcpdRound_sends run.daemon r packet hpacket).request hstate
              exact ⟨n + 1, by simpa using hn, by simp [hsends, List.replicate_succ]⟩
      | leased _ _ _ _ hacked _ => exact absurd hacked hack
      | loses hbefore _ _ =>
          rcases hbefore with ⟨hbound, -⟩ | ⟨-, hacked⟩
          · rw [hstate] at hbound
            cases hbound
          · exact absurd hacked hack
      | searches hbefore _ _ _ =>
          rw [hstate] at hbefore
          cases hbefore
      | offered hbefore _ _ =>
          rw [hstate] at hbefore
          cases hbefore
      | keeps hbefore _ _ _ _ _ =>
          rw [hstate] at hbefore
          cases hbefore

/-- A refusal, which has type 6, and another offer. -/
theorem offer_kept_refused : ∃ start run run', dhcpdStart 3 0 0 = some start ∧
    Executes DhcpStep ⟨start, []⟩ [replyRound 2] run ∧ run.daemon.state = .request ∧
    Executes DhcpStep run [replyRound 6, replyRound 2] run' ∧ run'.daemon.state = .request := by
  refine ⟨_, _, _, rfl, .cons rfl (.nil _), by decide, .cons rfl (.cons rfl (.nil _)), ?_⟩
  refine (offer_kept (by decide) (.cons rfl (.cons rfl (.nil _))) fun r hr hack => ?_).1
  have htype : dhcpMsgType r.response ≠ 5 := by
    rcases List.mem_cons.mp hr with rfl | hr
    · decide
    · rw [List.mem_singleton.mp hr]
      decide
  exact htype hack.answers.type

end Runs

end BrightS
