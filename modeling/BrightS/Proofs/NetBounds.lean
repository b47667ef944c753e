/-
What the receive path reads.

`ip_handle` looks at the frame's length only to make sure of the fixed headers.  The
payload it passes on starts behind the IP header and has the length it computes from the
length field, whether or not the frame has that many bytes; the handlers trust both.
`icmpReads`, `udpReads` and `tcpReads` list the ranges each handler reads; that these are
all is `handlers_read_only`, by which nothing outside them matters.

`frame_in_bounds_iff` says for which frames the payload is the right one, lies in the
frame and is all that is read.
-/
import BrightS.Proofs.NetFrames

namespace BrightS

open Bytes

/-! ### The ranges that are read -/

/-- A number of bytes from an address on. -/
structure ReadRange where
  start : Nat
  count : Nat

def icmpReads (m : Mem) (data len : Nat) : List ReadRange :=
  if len < icmpHdrSize then [] else
  if m data = 8 then [⟨data, 1⟩, ⟨data, len⟩] else [⟨data, 1⟩]

def udpReads (net : Net) (m : Mem) (data len : Nat) : List ReadRange :=
  if len < udpHdrSize then [] else
  match udpSocket net (swap16 (udpHdrAt m data).dstPort) with
  | none => [⟨data + 2, 2⟩]
  | some i =>
      let payloadLen := min (len - udpHdrSize) (net.sockets i).recv.avail
      if 0 < payloadLen then [⟨data + 2, 2⟩, ⟨data + udpHdrSize, payloadLen⟩, ⟨data, 2⟩]
      else [⟨data + 2, 2⟩]

/-- The segment goes to the branch of `tcp_handle` that copies data. -/
def TcpHdr.isData (tcp : TcpHdr) : Bool :=
  !tcp.has tcpSyn && !tcp.has tcpAck && !tcp.has tcpFin && tcp.has tcpPsh

def tcpReads (net : Net) (m : Mem) (data len : Nat) (srcIp : Ip) : List ReadRange :=
  if len < tcpHdrSize then [] else
  let tcp := tcpHdrAt m data
  match tcpSocket net srcIp (swap16 tcp.srcPort) (swap16 tcp.dstPort) with
  | none => [⟨data, 8⟩]
  | some i =>
      let payloadLen := min (sub32 len tcp.dataStart) (net.sockets i).recv.avail
      if tcp.isData then
        if 0 < payloadLen then
          [⟨data, 8⟩, ⟨data + 13, 1⟩, ⟨data + 12, 1⟩, ⟨data + tcp.dataStart, payloadLen⟩]
        else [⟨data, 8⟩, ⟨data + 13, 1⟩, ⟨data + 12, 1⟩]
      else [⟨data, 8⟩, ⟨data + 13, 1⟩]

/-- A protocol that has a handler. -/
def Handled (protocol : Byte) : Prop :=
  protocol = ipProtoIcmp ∨ protocol = ipProtoUdp ∨ protocol = ipProtoTcp

/-- What the handler of a packet reads. -/
def handlerReads (net : Net) (m : Mem) (p : IpPayload) : List ReadRange :=
  if p.protocol = ipProtoIcmp then icmpReads m p.data p.len
  else if p.protocol = ipProtoUdp then udpReads net m p.data p.len
  else if p.protocol = ipProtoTcp then tcpReads net m p.data p.len p.srcIp
  else []

/-- What the handler of a packet does. -/
def handlePayload (net : Net) (m : Mem) (p : IpPayload) : Option Net :=
  if p.protocol = ipProtoIcmp then icmpHandle net m p.data p.len p.srcIp
  else if p.protocol = ipProtoUdp then some (udpHandle net m p.data p.len p.srcIp)
  else if p.protocol = ipProtoTcp then tcpHandle net m p.data p.len p.srcIp
  else some net

/-! ### Nothing else is read -/

/-- Both memories have the same bytes in these ranges. -/
def AgreeOn (m m' : Mem) (reads : List ReadRange) : Prop :=
  ∀ r ∈ reads, ∀ a, r.start ≤ a → a < r.start + r.count → m' a = m a

section Reads

variable {net : Net} {m m' : Mem} {data len : Nat} {srcIp : Ip}

theorem icmpHandle_congr (h : AgreeOn m m' (icmpReads m data len)) :
    icmpHandle net m' data len srcIp = icmpHandle net m data len srcIp := by
  have hsize : icmpHdrSize = 8 := rfl
  unfold icmpReads at h
  unfold icmpHandle
  by_cases hlen : len < icmpHdrSize
  · rw [if_pos hlen, if_pos hlen]
  · rw [if_neg hlen] at h
    rw [if_neg hlen, if_neg hlen]
    by_cases hecho : m data = 8
    · rw [if_pos hecho] at h
      have hall : ∀ a, data ≤ a → a < data + len → m' a = m a :=
        fun a hlo hhi => h ⟨data, len⟩ (by simp) a hlo hhi
      rw [if_pos hecho, if_pos ((hall data le_rfl (by omega)).trans hecho),
        hall (data + 1) (by omega) (by omega)]
      congr 2
      congr 1
      apply slice_congr
      intro a hlo hhi
      exact hall a (by omega) (by omega)
    · rw [if_neg hecho] at h
      have htype : m' data = m data := h ⟨data, 1⟩ (by simp) data le_rfl (by simp)
      rw [if_neg hecho, if_neg (by rw [htype]; exact hecho)]

theorem load16_congr {a : Nat} (h₀ : m' a = m a) (h₁ : m' (a + 1) = m (a + 1)) :
    load16 m' a = load16 m a := by
  unfold load16
  rw [h₀, h₁]

theorem load32_congr {a : Nat} (h : ∀ k, k < 4 → m' (a + k) = m (a + k)) :
    load32 m' a = load32 m a := by
  unfold load32
  rw [h 1 (by omega), h 2 (by omega), h 3 (by omega), show m' a = m a from h 0 (by omega)]

theorem udpHandle_congr (h : AgreeOn m m' (udpReads net m data len)) :
    udpHandle net m' data len srcIp = udpHandle net m data len srcIp := by
  unfold udpReads at h
  unfold udpHandle
  by_cases hlen : len < udpHdrSize
  · rw [if_pos hlen, if_pos hlen]
  · rw [if_neg hlen] at h
    rw [if_neg hlen, if_neg hlen]
    have hport : (udpHdrAt m' data).dstPort = (udpHdrAt m data).dstPort := by
      have hread := h ⟨data + 2, 2⟩ (by split <;> [simp; (dsimp only; split <;> simp)])
      exact load16_congr (hread _ (by simp) (by simp)) (hread _ (by simp) (by simp))
    dsimp only
    rw [hport]
    cases hsock : udpSocket net (swap16 (udpHdrAt m data).dstPort) with
    | none => rfl
    | some i =>
        rw [hsock] at h
        dsimp only at h ⊢
        by_cases hroom : 0 < min (len - udpHdrSize) (net.sockets i).recv.avail
        · rw [if_pos hroom] at h
          rw [if_pos hroom, if_pos hroom]
          have hcopy : slice m' (data + udpHdrSize)
              (min (len - udpHdrSize) (net.sockets i).recv.avail) =
              slice m (data + udpHdrSize)
                (min (len - udpHdrSize) (net.sockets i).recv.avail) := by
            apply slice_congr
            intro a hlo hhi
            exact h ⟨data + udpHdrSize, _⟩ (by simp) a hlo hhi
          have hsrc : (udpHdrAt m' data).srcPort = (udpHdrAt m data).srcPort := by
            have hread := h ⟨data, 2⟩ (by simp)
            exact load16_congr (hread _ (by simp) (by simp)) (hread _ (by simp) (by simp))
          rw [hcopy, hsrc]
        · rw [if_neg hroom, if_neg hroom]

/-- The fields of the header that the handler uses; `m'` has the same ports and number. -/
theorem tcpHdrAt_congr (h : ∀ a, data ≤ a → a < data + 8 → m' a = m a) :
    (tcpHdrAt m' data).srcPort = (tcpHdrAt m data).srcPort ∧
      (tcpHdrAt m' data).dstPort = (tcpHdrAt m data).dstPort ∧
      (tcpHdrAt m' data).seq = (tcpHdrAt m data).seq := by
  refine ⟨load16_congr (h _ ?_ ?_) (h _ ?_ ?_), load16_congr (h _ ?_ ?_) (h _ ?_ ?_),
    load32_congr fun k hk => h _ ?_ ?_⟩ <;> omega

theorem TcpHdr.has_congr {tcp tcp' : TcpHdr} (hflags : tcp'.flags = tcp.flags) (flag : Byte) :
    tcp'.has flag = tcp.has flag := by
  unfold TcpHdr.has
  rw [hflags]

theorem tcpReply_congr {tcp tcp' : TcpHdr} (hsrc : tcp'.srcPort = tcp.srcPort)
    (hdst : tcp'.dstPort = tcp.dstPort) (sock : Socket) (flags : Byte) :
    tcpReply net tcp' sock flags srcIp = tcpReply net tcp sock flags srcIp := by
  unfold tcpReply
  rw [hsrc, hdst]

/-- The data offset and the data matter in the branch that copies data only. -/
theorem tcpSegment_congr {tcp tcp' : TcpHdr} {i : Nat} (hsrc : tcp'.srcPort = tcp.srcPort)
    (hdst : tcp'.dstPort = tcp.dstPort) (hseq : tcp'.seq = tcp.seq)
    (hflags : tcp'.flags = tcp.flags)
    (hdata : tcp.isData = true → tcp'.dataStart = tcp.dataStart ∧
      ∀ a, data + tcp.dataStart ≤ a → a < data + tcp.dataStart +
        min (sub32 len tcp.dataStart) (net.sockets i).recv.avail → m' a = m a) :
    tcpSegment net i tcp' m' data len srcIp = tcpSegment net i tcp m data len srcIp := by
  unfold tcpSegment
  simp only [TcpHdr.has_congr hflags, tcpReply_congr hsrc hdst, hseq]
  by_cases hsyn : tcp.has tcpSyn = true
  · rw [if_pos hsyn, if_pos hsyn]
  rw [if_neg hsyn, if_neg hsyn]
  by_cases hack : tcp.has tcpAck = true
  · rw [if_pos hack, if_pos hack]
  rw [if_neg hack, if_neg hack]
  by_cases hfin : tcp.has tcpFin = true
  · rw [if_pos hfin, if_pos hfin]
  rw [if_neg hfin, if_neg hfin]
  by_cases hpsh : tcp.has tcpPsh = true
  · obtain ⟨hstart, hcopy⟩ := hdata (by simp [TcpHdr.isData, *])
    rw [hstart, slice_congr hcopy]
  · have hno : ¬ (tcp.has tcpPsh = true ∨ tcp.has tcpAck = true ∧ tcpHdrSize < len) :=
      fun h => h.elim hpsh fun h => hack h.1
    rw [if_neg hno, if_neg hno]

theorem tcpHandle_congr (h : AgreeOn m m' (tcpReads net m data len srcIp)) :
    tcpHandle net m' data len srcIp = tcpHandle net m data len srcIp := by
  unfold tcpReads at h
  unfold tcpHandle
  by_cases hlen : len < tcpHdrSize
  · rw [if_pos hlen, if_pos hlen]
  · rw [if_neg hlen] at h
    rw [if_neg hlen, if_neg hlen]
    dsimp only at h ⊢
    cases hsock : tcpSocket net srcIp (swap16 (tcpHdrAt m data).srcPort)
        (swap16 (tcpHdrAt m data).dstPort) with
    | none =>
        rw [hsock] at h
        obtain ⟨hsrc, hdst, -⟩ := tcpHdrAt_congr fun a hlo hhi => h ⟨data, 8⟩ (by simp) a hlo hhi
        rw [hsrc, hdst, hsock]
    | some i =>
        rw [hsock] at h
        dsimp only at h
        have hfixed : ∀ a, data ≤ a → a < data + 8 → m' a = m a :=
          fun a hlo hhi => h ⟨data, 8⟩ (by split <;> [split <;> simp; simp]) a hlo hhi
        have hflags : (tcpHdrAt m' data).flags = (tcpHdrAt m data).flags :=
          h ⟨data + 13, 1⟩ (by split <;> [split <;> simp; simp]) _ (by simp) (by simp)
        obtain ⟨hsrc, hdst, hseq⟩ := tcpHdrAt_congr hfixed
        rw [hsrc, hdst, hsock]
        apply tcpSegment_congr hsrc hdst hseq hflags
        intro hdata
        rw [if_pos hdata] at h
        have hoff : (tcpHdrAt m' data).dataOff = (tcpHdrAt m data).dataOff :=
          h ⟨data + 12, 1⟩ (by split <;> simp) _ (by simp) (by simp)
        refine ⟨by unfold TcpHdr.dataStart; rw [hoff], fun a hlo hhi => ?_⟩
        rw [if_pos (by omega)] at h
        exact h ⟨data + (tcpHdrAt m data).dataStart, _⟩ (by simp) a hlo hhi

/-- **The listed ranges are all that the handlers read.**  Memory that agrees on them makes no
difference. -/
theorem handlers_read_only {p : IpPayload} (h : AgreeOn m m' (handlerReads net m p)) :
    handlePayload net m' p = handlePayload net m p := by
  unfold handlerReads at h
  unfold handlePayload
  by_cases hicmp : p.protocol = ipProtoIcmp
  · rw [if_pos hicmp] at h
    rw [if_pos hicmp, if_pos hicmp]
    exact icmpHandle_congr h
  · rw [if_neg hicmp] at h
    rw [if_neg hicmp, if_neg hicmp]
    by_cases hudp : p.protocol = ipProtoUdp
    · rw [if_pos hudp] at h
      rw [if_pos hudp, if_pos hudp, udpHandle_congr h]
    · rw [if_neg hudp] at h
      rw [if_neg hudp, if_neg hudp]
      by_cases htcp : p.protocol = ipProtoTcp
      · rw [if_pos htcp] at h
        rw [if_pos htcp, if_pos htcp]
        exact tcpHandle_congr h
      · rw [if_neg htcp, if_neg htcp]

end Reads

/-! ### Frames in bounds -/

/-- Four times the IHL field of the frame. -/
def ipIhl (m : Mem) : Nat := (m 14 &&& 0x0F).toNat * 4

/-- The total length field of the frame in host order. -/
def ipTotal (m : Mem) : Nat := (swap16 (load16 m 16)).toNat

/-- The frame has an IP header with our address or the broadcast address, and a protocol that has
a handler. -/
def ForUs (net : Net) (m : Mem) (len : Nat) : Prop :=
  34 ≤ len ∧ (∃ iface, net.netifs.head? = some iface ∧
    (load32 m 30 = iface.ipAddr ∨ load32 m 30 = 0xFFFFFFFF)) ∧ Handled (m 23)

/-- The payload has the length that the headers say, and the frame contains it. -/
structure PayloadInFrame (m : Mem) (len : Nat) (p : IpPayload) : Prop where
  start : p.data = 14 + ipIhl m
  length : p.len + ipIhl m = ipTotal m
  inside : p.data + p.len ≤ len

/-- Every payload that is passed to a handler is the right one and all the handler reads; a frame
that has none changes nothing. -/
structure RecvInBounds (net : Net) (m : Mem) (len : Nat) : Prop where
  passed : ∀ p, ipAccept net m len = some p → Handled p.protocol →
    PayloadInFrame m len p ∧
      ∀ r ∈ handlerReads net m p, p.data ≤ r.start ∧ r.start + r.count ≤ p.data + p.len
  dropped : ¬ (ipIhl m ≤ ipTotal m ∧ 14 + ipTotal m ≤ len) → ipHandle net m len = some net

/-- The segment at `data` has data for a socket that has room. -/
def TakesData (net : Net) (m : Mem) (data : Nat) (srcIp : Ip) : Prop :=
  (tcpHdrAt m data).isData = true ∧
    ∃ i, tcpSocket net srcIp (swap16 (tcpHdrAt m data).srcPort)
      (swap16 (tcpHdrAt m data).dstPort) = some i ∧ 0 < (net.sockets i).recv.avail

/-- The total length is a multiple of 256, leaves room for the IP header and fits the frame, and
a TCP segment whose data is taken has a header that ends before the segment does. -/
def FrameInBounds (net : Net) (m : Mem) (len : Nat) : Prop :=
  ForUs net m len →
    ipTotal m % 256 = 0 ∧ ipIhl m ≤ ipTotal m ∧ 14 + ipTotal m ≤ len ∧
      (m 23 = ipProtoTcp → tcpHdrSize ≤ ipTotal m - ipIhl m →
        TakesData net m (14 + ipIhl m) (load32 m 26) →
        (tcpHdrAt m (14 + ipIhl m)).dataStart ≤ ipTotal m - ipIhl m)

section Bounds

variable {net : Net} {m : Mem} {len : Nat}

/-- What is passed on for a frame. -/
def wirePayload (m : Mem) : IpPayload where
  protocol := m 23
  data := 14 + ipIhl m
  len := sub32 (65536 * (ipTotal m % 256) + ipTotal m) (ipIhl m)
  srcIp := load32 m 26

theorem wide_total (m : Mem) : ((load16 m 16).toNat >>> 8) ||| ((load16 m 16).toNat <<< 8) =
    65536 * (ipTotal m % 256) + ipTotal m := by
  have hlo := (m 16).isLt
  have hhi := (m (16 + 1)).isLt
  have hmod : ((m 16).toNat * 256 + (m (16 + 1)).toNat) % 256 = (m (16 + 1)).toNat := by omega
  have hdiv : ((m (16 + 1)).toNat * 256 + (m 16).toNat) / 256 = (m (16 + 1)).toNat := by omega
  rw [shiftRight_or_shiftLeft (BitVec.isLt _), ipTotal, toNat_swap16_load16, toNat_load16, hmod,
    hdiv]
  omega

theorem ipAccept_iff {p : IpPayload} : ipAccept net m len = some p ↔
    p = wirePayload m ∧ 34 ≤ len ∧ ∃ iface, net.netifs.head? = some iface ∧
      (load32 m 30 = iface.ipAddr ∨ load32 m 30 = 0xFFFFFFFF) := by
  have hsize : ethHdrSize + ipHdrSize = 34 := rfl
  unfold ipAccept
  split
  · rename_i hshort
    exact iff_of_false (by simp) fun h => by omega
  · rename_i hlong
    have hdst : (ipHdrAt m ethHdrSize).dstIp = load32 m 30 := rfl
    have hihl : ((ipHdrAt m ethHdrSize).verIhl &&& 0x0F).toNat * 4 = ipIhl m := rfl
    have htotal : (ipHdrAt m ethHdrSize).totalLen = load16 m 16 := rfl
    simp only [hdst, hihl, htotal, wide_total]
    cases hifs : net.netifs with
    | nil => exact iff_of_false (by simp) fun ⟨_, _, _, hhead, _⟩ => by simp at hhead
    | cons iface rest =>
        dsimp only
        constructor
        · intro h
          split at h
          · exact absurd h (by simp)
          · rename_i haddr
            refine ⟨(Option.some.inj h).symm, by omega, iface, rfl, ?_⟩
            by_contra hnot
            exact haddr (not_or.mp hnot)
        · intro ⟨hp, _, iface', hhead, haddr⟩
          have heq : iface' = iface := (Option.some.inj hhead).symm
          rw [heq] at haddr
          rw [if_neg fun hnot => haddr.elim hnot.1 hnot.2, hp]
          rfl

theorem forUs_iff : ForUs net m len ↔
    ipAccept net m len = some (wirePayload m) ∧ Handled (wirePayload m).protocol := by
  rw [ipAccept_iff]
  unfold ForUs
  constructor
  · intro ⟨hlen, haddr, hproto⟩
    exact ⟨⟨rfl, hlen, haddr⟩, hproto⟩
  · intro ⟨⟨_, hlen, haddr⟩, hproto⟩
    exact ⟨hlen, haddr, hproto⟩

theorem ipIhl_le (m : Mem) : ipIhl m ≤ 60 := by
  have hand : (m 14 &&& 0x0F).toNat ≤ 15 := by
    rw [BitVec.toNat_and]
    exact Nat.and_le_right
  unfold ipIhl
  omega

theorem ipTotal_lt (m : Mem) : ipTotal m < 65536 := BitVec.isLt _

/-- The length is right exactly when the low byte that is left over is zero. -/
theorem wirePayload_len_iff : (wirePayload m).len + ipIhl m = ipTotal m ↔
    ipTotal m % 256 = 0 ∧ ipIhl m ≤ ipTotal m := by
  have hihl := ipIhl_le m
  have htotal := ipTotal_lt m
  unfold wirePayload sub32
  dsimp only
  omega

theorem wirePayload_len_lt (m : Mem) : (wirePayload m).len < 2 ^ 32 :=
  Nat.mod_lt _ (by decide)

theorem payloadInFrame_iff : PayloadInFrame m len (wirePayload m) ↔
    ipTotal m % 256 = 0 ∧ ipIhl m ≤ ipTotal m ∧ 14 + ipTotal m ≤ len := by
  have hdata : (wirePayload m).data = 14 + ipIhl m := rfl
  constructor
  · intro ⟨_, hlength, hinside⟩
    obtain ⟨hlow, hle⟩ := wirePayload_len_iff.mp hlength
    exact ⟨hlow, hle, by omega⟩
  · intro ⟨hlow, hle, hin⟩
    have hlength := wirePayload_len_iff.mpr ⟨hlow, hle⟩
    exact ⟨rfl, hlength, by omega⟩

/-- ICMP and UDP read inside whatever they are given. -/
theorem icmpReads_inside {data : Nat} {r : ReadRange} (hr : r ∈ icmpReads m data len) :
    data ≤ r.start ∧ r.start + r.count ≤ data + len := by
  have hsize : icmpHdrSize = 8 := rfl
  unfold icmpReads at hr
  split at hr
  · exact absurd hr (by simp)
  · split at hr
    · simp only [List.mem_cons, List.not_mem_nil, or_false] at hr
      rcases hr with rfl | rfl
      · exact ⟨le_rfl, by dsimp only; omega⟩
      · exact ⟨le_rfl, le_rfl⟩
    · simp only [List.mem_singleton] at hr
      rw [hr]
      exact ⟨le_rfl, by dsimp only; omega⟩

theorem udpReads_inside {data : Nat} {r : ReadRange} (hr : r ∈ udpReads net m data len) :
    data ≤ r.start ∧ r.start + r.count ≤ data + len := by
  have hsize : udpHdrSize = 8 := rfl
  unfold udpReads at hr
  split at hr
  · exact absurd hr (by simp)
  · split at hr
    · simp only [List.mem_singleton] at hr
      rw [hr]
      dsimp only
      omega
    · dsimp only at hr
      split at hr
      · simp only [List.mem_cons, List.not_mem_nil, or_false] at hr
        rcases hr with rfl | rfl | rfl
        all_goals
          dsimp only
          omega
      · simp only [List.mem_singleton] at hr
        rw [hr]
        dsimp only
        omega

/-- TCP does so unless it copies data from behind the end of the segment. -/
theorem tcpReads_inside_iff {data : Nat} {srcIp : Ip} (hlen : len < 2 ^ 32) :
    (∀ r ∈ tcpReads net m data len srcIp, data ≤ r.start ∧ r.start + r.count ≤ data + len) ↔
      (tcpHdrSize ≤ len → TakesData net m data srcIp → (tcpHdrAt m data).dataStart ≤ len) := by
  have hsize : tcpHdrSize = 20 := rfl
  have hstart : (tcpHdrAt m data).dataStart < 2 ^ 32 := by
    have hoff := ((tcpHdrAt m data).dataOff >>> 4).isLt
    unfold TcpHdr.dataStart
    omega
  unfold tcpReads
  split
  · rename_i hshort
    exact iff_of_true (by simp) fun hlong => by omega
  · rename_i hlong
    dsimp only
    cases hsock : tcpSocket net srcIp (swap16 (tcpHdrAt m data).srcPort)
        (swap16 (tcpHdrAt m data).dstPort) with
    | none =>
        refine iff_of_true ?_ fun _ htakes => ?_
        · simp only [List.mem_singleton, forall_eq]
          omega
        · obtain ⟨-, i, hi, -⟩ := htakes
          exact absurd (hsock.symm.trans hi) (by simp)
    | some i =>
        dsimp only
        by_cases hdata : (tcpHdrAt m data).isData = true
        · rw [if_pos hdata]
          by_cases hroom : 0 < min (sub32 len (tcpHdrAt m data).dataStart) (net.sockets i).recv.avail
          · -- The copy is the one range that can leave the segment.
            rw [if_pos hroom]
            simp only [List.mem_cons, List.not_mem_nil, or_false, forall_eq_or_imp, forall_eq]
            have htakes : TakesData net m data srcIp := ⟨hdata, i, hsock, by omega⟩
            unfold sub32 at hroom ⊢
            constructor
            · intro hreads _ _
              omega
            · intro hcond
              have hle := hcond (by omega) htakes
              omega
          · rw [if_neg hroom]
            refine iff_of_true ?_ fun _ htakes => ?_
            · simp only [List.mem_cons, List.not_mem_nil, or_false, forall_eq_or_imp, forall_eq]
              omega
            · obtain ⟨-, i', hi', havail⟩ := htakes
              rw [← Option.some.inj (hsock.symm.trans hi')] at havail
              unfold sub32 at hroom
              omega
        · rw [if_neg hdata]
          refine iff_of_true ?_ fun _ htakes => absurd htakes.1 hdata
          simp only [List.mem_cons, List.not_mem_nil, or_false, forall_eq_or_imp, forall_eq]
          omega

/-- Outside the frame, which bytes the handler reads depends on the TCP data offset alone. -/
theorem handlerReads_inside_iff (hproto : Handled (m 23)) :
    (∀ r ∈ handlerReads net m (wirePayload m), (wirePayload m).data ≤ r.start ∧
        r.start + r.count ≤ (wirePayload m).data + (wirePayload m).len) ↔
      (m 23 = ipProtoTcp → tcpHdrSize ≤ (wirePayload m).len →
        TakesData net m (14 + ipIhl m) (load32 m 26) →
        (tcpHdrAt m (14 + ipIhl m)).dataStart ≤ (wirePayload m).len) := by
  have hfield : (wirePayload m).protocol = m 23 := rfl
  unfold handlerReads
  rw [hfield]
  rcases hproto with hicmp | hudp | htcp
  · rw [hicmp, if_pos rfl]
    exact iff_of_true (fun r hr => icmpReads_inside hr) fun h => absurd h (by decide)
  · rw [hudp, if_neg (by decide), if_pos rfl]
    exact iff_of_true (fun r hr => udpReads_inside hr) fun h => absurd h (by decide)
  · rw [htcp, if_neg (by decide), if_neg (by decide), if_pos rfl]
    rw [tcpReads_inside_iff (wirePayload_len_lt m)]
    exact ⟨fun h _ => h, fun h => h rfl⟩

theorem ipHandle_dropped (hdrop : ¬ ForUs net m len) : ipHandle net m len = some net := by
  unfold ipHandle
  cases haccept : ipAccept net m len with
  | none => rfl
  | some p =>
      have hp : p = wirePayload m := (ipAccept_iff.mp haccept).1
      have hproto : ¬ Handled p.protocol := by
        intro hproto
        rw [hp] at haccept hproto
        exact hdrop (forUs_iff.mpr ⟨haccept, hproto⟩)
      unfold Handled at hproto
      dsimp only
      rw [if_neg fun h => hproto (.inl h), if_neg fun h => hproto (.inr (.inl h)),
        if_neg fun h => hproto (.inr (.inr h))]

/--
**Which frames are handled in bounds.**  The payload that a handler gets has the length of the
headers, lies in the frame and is all the handler reads exactly when the frame meets
`FrameInBounds`.
-/
theorem frame_in_bounds_iff (net : Net) (m : Mem) (len : Nat) :
    RecvInBounds net m len ↔ FrameInBounds net m len := by
  constructor
  · intro hbounds hus
    obtain ⟨haccept, hproto⟩ := forUs_iff.mp hus
    obtain ⟨hframe, hreads⟩ := hbounds.passed _ haccept hproto
    obtain ⟨hlow, hle, hin⟩ := payloadInFrame_iff.mp hframe
    have hlength : (wirePayload m).len = ipTotal m - ipIhl m := by
      have := hframe.length
      omega
    refine ⟨hlow, hle, hin, ?_⟩
    rw [← hlength]
    exact (handlerReads_inside_iff hus.2.2).mp hreads
  · intro hcond
    refine ⟨fun p haccept hproto => ?_, fun himpossible => ?_⟩
    · have hp : p = wirePayload m := (ipAccept_iff.mp haccept).1
      rw [hp] at haccept hproto ⊢
      obtain ⟨hlow, hle, hin, hdata⟩ := hcond (forUs_iff.mpr ⟨haccept, hproto⟩)
      have hframe := payloadInFrame_iff.mpr ⟨hlow, hle, hin⟩
      have hlength : (wirePayload m).len = ipTotal m - ipIhl m := by
        have := hframe.length
        omega
      rw [← hlength] at hdata
      exact ⟨hframe, (handlerReads_inside_iff hproto).mpr hdata⟩
    · apply ipHandle_dropped
      intro hus
      obtain ⟨-, hle, hin, -⟩ := hcond hus
      exact himpossible ⟨hle, hin⟩

end Bounds

/-- The 42 bytes of a datagram without payload: the total length is 28. -/
def bareDatagram : Mem := fun i =>
  if i = 14 then 0x45 else if i = 17 then 28 else if i = 23 then 17 else if i = 30 then 2 else 0

/-- Its eight bytes of UDP are passed on as 1835016 bytes. -/
theorem frame_length_not_cut :
    (wirePayload bareDatagram).len = 1835016 ∧ ipTotal bareDatagram - ipIhl bareDatagram = 8 ∧
      ipAccept (lanHost 2 1) bareDatagram 42 = some (wirePayload bareDatagram) ∧
      ¬ RecvInBounds (lanHost 2 1) bareDatagram 42 := by
  have haccept : ipAccept (lanHost 2 1) bareDatagram 42 = some (wirePayload bareDatagram) :=
    ipAccept_iff.mpr ⟨rfl, by decide, lanIf 2, rfl, .inl (by decide +kernel)⟩
  refine ⟨by decide +kernel, by decide +kernel, haccept, fun hbounds => ?_⟩
  have hlength := (hbounds.passed _ haccept (.inr (.inl (by decide +kernel)))).1.length
  exact absurd hlength (by decide +kernel)

end BrightS
