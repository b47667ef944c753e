/-
What the ARP cache remembers.

Every packet takes the next entry that is not used yet, whether or not its sender has one, and no
entry is ever given up.  So the cache is the first sixteen packets (`Filled`).  That is what it
should be as long as these have different senders and the packets behind them repeat what they
said.
-/
import BrightS.Lib.Runs
import BrightS.Proofs.NetFrames

namespace BrightS

open Bytes Runs

/-- A received frame that goes to `arp_handle`. -/
structure ArpFrame where
  mem : Mem
  len : Nat
  whole : ethHdrSize ≤ len
  type : swap16 (load16 mem 12) = 0x0806

/-- The sender that a packet names; one that is too short is not looked at. -/
def ArpFrame.sender (f : ArpFrame) : Option (Ip × Mac) :=
  if f.len < ethHdrSize + arpHdrSize then none else some (load32 f.mem 28, macAt f.mem 22)

def ArpReceived (net : Net) (f : ArpFrame) (net' : Net) : Prop :=
  netRecv net f.mem f.len = some net'

/-- The MAC of the last packet from an address. -/
def lastMac (packets : List (Ip × Mac)) (ip : Ip) : Option Mac :=
  (packets.reverse.find? fun p => p.1 == ip).map Prod.snd

/-- One entry for an address, with the MAC of its last packet, and one for every sender. -/
structure ArpCoherent (net : Net) (packets : List (Ip × Mac)) : Prop where
  unique : ∀ i j, i < arpCacheSize → j < arpCacheSize → (net.arpCache i).valid = true →
    (net.arpCache j).valid = true → (net.arpCache i).ip = (net.arpCache j).ip → i = j
  latest : ∀ ip mac, lastMac packets ip = some mac → arpResolve net ip = some mac
  known : ∀ p ∈ packets, (arpResolve net p.1).isSome

/-- The first sixteen packets have different senders, and the others say what one of them did. -/
def ArpRepeats (packets : List (Ip × Mac)) : Prop :=
  ((packets.take arpCacheSize).map Prod.fst).Nodup ∧
    ∀ p ∈ packets.drop arpCacheSize, p ∈ packets.take arpCacheSize

instance (packets : List (Ip × Mac)) : Decidable (ArpRepeats packets) :=
  inferInstanceAs (Decidable (_ ∧ _))

/-! ### The entries are the first packets -/

/-- What an entry holds. -/
def Net.arpAt (net : Net) (i : Nat) : Option (Ip × Mac) :=
  if (net.arpCache i).valid then some ((net.arpCache i).ip, (net.arpCache i).mac) else none

def Filled (net : Net) (packets : List (Ip × Mac)) : Prop :=
  ∀ i, i < arpCacheSize → net.arpAt i = packets[i]?

section Filled

variable {net : Net} {packets : List (Ip × Mac)}

theorem arpAt_isSome (net : Net) (i : Nat) : (net.arpAt i).isSome = (net.arpCache i).valid := by
  unfold Net.arpAt
  cases (net.arpCache i).valid <;> rfl

theorem Filled.valid_iff (h : Filled net packets) {i : Nat} (hi : i < arpCacheSize) :
    (net.arpCache i).valid = true ↔ i < packets.length := by
  rw [← arpAt_isSome, h i hi]
  simp

/-- An entry that is used is a packet. -/
theorem Filled.entry (h : Filled net packets) {i : Nat} (hi : i < arpCacheSize)
    (hvalid : (net.arpCache i).valid = true) :
    packets[i]? = some ((net.arpCache i).ip, (net.arpCache i).mac) := by
  rw [← h i hi, Net.arpAt, if_pos hvalid]

theorem mem_take_iff {p : Ip × Mac} :
    p ∈ packets.take arpCacheSize ↔ ∃ i, i < arpCacheSize ∧ packets[i]? = some p := by
  constructor
  · intro hp
    obtain ⟨i, hi⟩ := List.mem_iff_getElem?.mp hp
    have hlt : i < arpCacheSize := by
      by_contra hge
      rw [List.getElem?_take_eq_none (Nat.not_lt.mp hge)] at hi
      exact absurd hi (by simp)
    rw [List.getElem?_take_of_lt hlt] at hi
    exact ⟨i, hlt, hi⟩
  · rintro ⟨i, hlt, hi⟩
    rw [← List.getElem?_take_of_lt hlt] at hi
    exact List.mem_of_getElem? hi

/-- **A packet** takes the next entry, if there is one left. -/
theorem Filled.add (h : Filled net packets) (ip : Ip) (mac : Mac) :
    Filled (arpCacheAdd net ip mac) (packets ++ [(ip, mac)]) := by
  unfold arpCacheAdd
  by_cases hroom : packets.length < arpCacheSize
  · have hfree : ((List.range arpCacheSize).find? fun i => !(net.arpCache i).valid) =
        some packets.length := by
      rw [List.find?_range_eq_some]
      refine ⟨?_, List.mem_range.mpr hroom, fun j hj => ?_⟩
      · have hnot : ¬ (net.arpCache packets.length).valid = true := fun hvalid =>
          absurd ((h.valid_iff hroom).mp hvalid) (lt_irrefl _)
        simpa using hnot
      · have hvalid := (h.valid_iff (hj.trans hroom)).mpr hj
        simp [hvalid]
    rw [hfree]
    intro i hi
    by_cases heq : i = packets.length
    · rw [heq, List.getElem?_concat_length]
      simp [Net.arpAt]
    · have hsame := h i hi
      simp only [Net.arpAt, Function.update_of_ne heq] at hsame ⊢
      rw [hsame, List.getElem?_append]
      by_cases hlt : i < packets.length
      · rw [if_pos hlt]
      · rw [if_neg hlt, List.getElem?_eq_none (by omega), List.getElem?_eq_none (by simp; omega)]
  · have hfull : ((List.range arpCacheSize).find? fun i => !(net.arpCache i).valid) = none := by
      rw [List.find?_range_eq_none]
      intro i hi
      have hvalid := (h.valid_iff hi).mpr (by omega)
      simp [hvalid]
    rw [hfull]
    intro i hi
    rw [h i hi, List.getElem?_append_left (by omega)]

/-- What is resolved is the first of these packets from the address. -/
theorem Filled.resolve (h : Filled net packets) {ip : Ip} {mac : Mac}
    (hres : arpResolve net ip = some mac) : (ip, mac) ∈ packets.take arpCacheSize := by
  unfold arpResolve at hres
  obtain ⟨i, hfind, hmac⟩ := Option.map_eq_some_iff.mp hres
  have hmem := List.mem_range.mp (List.mem_of_find?_eq_some hfind)
  have hthis := List.find?_some hfind
  simp only [Bool.and_eq_true, beq_iff_eq] at hthis
  refine mem_take_iff.mpr ⟨i, hmem, ?_⟩
  rw [h.entry hmem hthis.1, hthis.2, hmac]

theorem Filled.resolves (h : Filled net packets) {p : Ip × Mac}
    (hp : p ∈ packets.take arpCacheSize) : (arpResolve net p.1).isSome := by
  obtain ⟨i, hi, hat⟩ := mem_take_iff.mp hp
  have hvalid := (h.valid_iff hi).mpr (List.getElem?_eq_some_iff.mp hat).1
  have hentry := h.entry hi hvalid
  rw [hat] at hentry
  obtain ⟨ip, mac⟩ := p
  obtain ⟨hip, -⟩ := Prod.mk.inj (Option.some.inj hentry)
  unfold arpResolve arpCacheFind
  rw [Option.isSome_map, List.find?_isSome]
  exact ⟨i, List.mem_range.mpr hi, by simp [hvalid, hip]⟩

/-! ### When that is right -/

theorem ArpRepeats.mem (h : ArpRepeats packets) {p : Ip × Mac} (hp : p ∈ packets) :
    p ∈ packets.take arpCacheSize := by
  rw [← List.take_append_drop arpCacheSize packets] at hp
  rcases List.mem_append.mp hp with hfirst | hlater
  · exact hfirst
  · exact h.2 p hlater

theorem ArpRepeats.shorter {before : List (Ip × Mac)} (h : ArpRepeats packets)
    (hbefore : before <+: packets) : ArpRepeats before := by
  have htake : before.take arpCacheSize <+: packets.take arpCacheSize :=
    hbefore.take arpCacheSize
  refine ⟨h.1.sublist (htake.sublist.map Prod.fst), fun p hp => ?_⟩
  have hlong : arpCacheSize < before.length := by
    have hpos := List.length_pos_of_mem hp
    rw [List.length_drop] at hpos
    omega
  have hmem := h.mem (hbefore.subset (List.mem_of_mem_drop hp))
  obtain ⟨behind, rfl⟩ := hbefore
  rwa [List.take_append_of_le_length hlong.le] at hmem

theorem lastMac_mem {ip : Ip} {mac : Mac} (h : lastMac packets ip = some mac) :
    (ip, mac) ∈ packets := by
  obtain ⟨p, hfind, rfl⟩ := Option.map_eq_some_iff.mp h
  have hip := List.find?_some hfind
  rw [beq_iff_eq] at hip
  have hmem := List.mem_of_find?_eq_some hfind
  rw [← hip]
  exact List.mem_reverse.mp hmem

theorem lastMac_snoc (packets : List (Ip × Mac)) (p : Ip × Mac) :
    lastMac (packets ++ [p]) p.1 = some p.2 := by
  simp [lastMac]

/-- **The first packets are enough** if the others repeat them. -/
theorem Filled.coherent (h : Filled net packets) (hrep : ArpRepeats packets) :
    ArpCoherent net packets where
  unique := by
    intro i j hi hj hvi hvj hip
    have hat : ∀ {k}, k < arpCacheSize → (net.arpCache k).valid = true →
        ((packets.take arpCacheSize).map Prod.fst)[k]? = some (net.arpCache k).ip := by
      intro k hk hvalid
      rw [List.getElem?_map, List.getElem?_take_of_lt hk, h.entry hk hvalid]
      rfl
    have hlt : i < ((packets.take arpCacheSize).map Prod.fst).length :=
      (List.getElem?_eq_some_iff.mp (hat hi hvi)).1
    exact (List.getElem?_inj hlt hrep.1).mp (by rw [hat hi hvi, hat hj hvj, hip])
  latest := by
    intro ip mac hlast
    have hmem := hrep.mem (lastMac_mem hlast)
    obtain ⟨mac', hres⟩ := Option.isSome_iff_exists.mp (h.resolves hmem)
    have hsame := List.inj_on_of_nodup_map hrep.1 (h.resolve hres) hmem rfl
    rw [hres, (Prod.mk.inj hsame).2]
  known := fun p hp => h.resolves (hrep.mem hp)

end Filled

/-! ### Received packets -/

theorem netSend_arpCache (net : Net) (frame : List Byte) :
    (netSend net frame).arpCache = net.arpCache := by
  rcases netSend_cases net frame with h | h <;> rw [h]

theorem netSend_netifs (net : Net) (frame : List Byte) :
    (netSend net frame).netifs = net.netifs := by
  rcases netSend_cases net frame with h | h <;> rw [h]

theorem arpCacheAdd_netifs (net : Net) (ip : Ip) (mac : Mac) :
    (arpCacheAdd net ip mac).netifs = net.netifs := by
  unfold arpCacheAdd
  split <;> rfl

theorem netRecv_arp (net : Net) (f : ArpFrame) :
    netRecv net f.mem f.len = some (arpHandle net f.mem f.len) := by
  have hwhole := f.whole
  unfold netRecv
  rw [if_neg (by omega)]
  dsimp only
  rw [if_pos f.type]

/-- The packets that were looked at. -/
def arpSenders (net : Net) (frames : List ArpFrame) : List (Ip × Mac) :=
  if net.netifs = [] then [] else frames.filterMap ArpFrame.sender

theorem arpHandle_filled {net : Net} {packets : List (Ip × Mac)} (h : Filled net packets)
    (f : ArpFrame) :
    Filled (arpHandle net f.mem f.len) (packets ++ arpSenders net [f]) ∧
      (arpHandle net f.mem f.len).netifs = net.netifs := by
  unfold arpHandle arpSenders
  by_cases hshort : f.len < ethHdrSize + arpHdrSize
  · rw [if_pos hshort]
    have hnone : f.sender = none := if_pos hshort
    simp [hnone, h]
  rw [if_neg hshort]
  have hsender : f.sender = some (load32 f.mem 28, macAt f.mem 22) := if_neg hshort
  cases hif : net.netifs with
  | nil => simp [h, hif]
  | cons iface rest =>
      have hadd := h.add (load32 f.mem 28) (macAt f.mem 22)
      have hifs := (arpCacheAdd_netifs net (load32 f.mem 28) (macAt f.mem 22)).trans hif
      rw [if_neg (by simp)]
      simp only [List.filterMap_cons, hsender, List.filterMap_nil]
      split_ifs
      · exact ⟨fun i hi => (congrArg (fun c => if (c i).valid then some ((c i).ip, (c i).mac)
          else none) (netSend_arpCache ..)).trans (hadd i hi), (netSend_netifs ..).trans hifs⟩
      · exact ⟨hadd, hifs⟩

theorem arp_run_filled {net net' : Net} {frames : List ArpFrame} (hboot : Filled net [])
    (hrun : Executes ArpReceived net frames net') : Filled net' (arpSenders net frames) := by
  have hfilled : Filled net' (arpSenders net frames) ∧ net'.netifs = net.netifs := by
    refine Executes.history (P := fun n fs => Filled n (arpSenders net fs) ∧ n.netifs = net.netifs)
      ?_ hrun ⟨?_, rfl⟩
    · rintro n fs f n' ⟨hn, hifs⟩ hstep
      rw [ArpReceived, netRecv_arp] at hstep
      obtain rfl := Option.some.inj hstep
      obtain ⟨hnext, hsame⟩ := arpHandle_filled hn f
      refine ⟨?_, hsame.trans hifs⟩
      unfold arpSenders at hnext ⊢
      rw [hifs] at hnext
      by_cases hnone : net.netifs = []
      · simpa [hnone] using hnext
      · simpa [hnone, List.filterMap_append] using hnext
    · unfold arpSenders
      split_ifs
      · exact hboot
      · exact hboot
  exact hfilled.1

theorem arp_run_exists (net : Net) (frames : List ArpFrame) :
    ∃ net', Executes ArpReceived net frames net' := by
  induction frames generalizing net with
  | nil => exact ⟨net, .nil net⟩
  | cons f rest ih =>
      obtain ⟨net', hrest⟩ := ih (arpHandle net f.mem f.len)
      exact ⟨net', .cons (netRecv_arp net f) hrest⟩

/--
**When the cache knows every sender.**  From the first packet on, whatever frames arrive in which
order, exactly as long as no packet says anything new behind the first sixteen, and these come
from different senders.
-/
theorem arp_coherent_iff {net : Net} (hboot : ∀ i, (net.arpCache i).valid = false)
    (frames : List ArpFrame) :
    (∀ before net', before <+: frames → Executes ArpReceived net before net' →
        ArpCoherent net' (before.filterMap ArpFrame.sender)) ↔
      frames.filterMap ArpFrame.sender = [] ∨
        net.netifs ≠ [] ∧ ArpRepeats (frames.filterMap ArpFrame.sender) := by
  have hempty : Filled net [] := by
    intro i _
    simp [Net.arpAt, hboot i]
  constructor
  · intro hall
    rw [or_iff_not_imp_left]
    intro hsome
    obtain ⟨net', hrun⟩ := arp_run_exists net frames
    have hfilled := arp_run_filled hempty hrun
    have hcoherent := hall frames net' (List.prefix_refl frames) hrun
    have hif : net.netifs ≠ [] := by
      intro hnone
      obtain ⟨p, rest, hp⟩ := List.exists_cons_of_ne_nil hsome
      rw [arpSenders, if_pos hnone] at hfilled
      obtain ⟨mac, hres⟩ := Option.isSome_iff_exists.mp
        (hcoherent.known p (by rw [hp]; exact List.mem_cons_self ..))
      exact absurd (hfilled.resolve hres) (by simp)
    rw [arpSenders, if_neg hif] at hfilled
    refine ⟨hif, ?_, fun p hp => ?_⟩
    · rw [List.nodup_iff_getElem?_ne_getElem?]
      intro i j hij hj heq
      rw [List.length_map, List.length_take] at hj
      have hi : i < arpCacheSize := by omega
      have hj' : j < arpCacheSize := by omega
      rw [List.getElem?_map, List.getElem?_map, List.getElem?_take_of_lt hi,
        List.getElem?_take_of_lt hj'] at heq
      have hvi := (hfilled.valid_iff hi).mpr (by omega)
      have hvj := (hfilled.valid_iff hj').mpr (by omega)
      rw [hfilled.entry hi hvi, hfilled.entry hj' hvj] at heq
      have hsame := hcoherent.unique i j hi hj' hvi hvj (Option.some.inj heq)
      omega
    · -- After the frame of this packet it is the last one from its sender.
      obtain ⟨f, hf, hsender⟩ := List.mem_filterMap.mp (List.mem_of_mem_drop hp)
      obtain ⟨front, back, rfl⟩ := List.append_of_mem hf
      have hprefix : front ++ [f] <+: front ++ f :: back := ⟨back, by simp⟩
      obtain ⟨mid, hmid⟩ := arp_run_exists net (front ++ [f])
      have hseen : (front ++ [f]).filterMap ArpFrame.sender =
          front.filterMap ArpFrame.sender ++ [p] := by simp [hsender]
      have hcoh := hall _ mid hprefix hmid
      have hfill := arp_run_filled hempty hmid
      rw [arpSenders, if_neg hif] at hfill
      rw [hseen] at hcoh hfill
      have hmem := hfill.resolve (hcoh.latest p.1 p.2 (lastMac_snoc _ p))
      have hwhole : (front.filterMap ArpFrame.sender ++ [p]).take arpCacheSize <+:
          ((front ++ f :: back).filterMap ArpFrame.sender).take arpCacheSize := by
        refine List.IsPrefix.take ?_ arpCacheSize
        exact ⟨back.filterMap ArpFrame.sender, by simp [hsender]⟩
      exact hwhole.subset hmem
  · intro hsafe before net' hbefore hrun
    have hfilled := arp_run_filled hempty hrun
    have hpackets : before.filterMap ArpFrame.sender <+: frames.filterMap ArpFrame.sender :=
      hbefore.filterMap ArpFrame.sender
    rcases hsafe with hnone | ⟨hif, hrep⟩
    · rw [hnone, List.prefix_nil] at hpackets
      have hsenders : arpSenders net before = [] := by
        unfold arpSenders
        split_ifs
        · rfl
        · exact hpackets
      rw [hsenders] at hfilled
      rw [hpackets]
      exact hfilled.coherent ⟨by simp, by simp⟩
    · rw [arpSenders, if_neg hif] at hfilled
      exact hfilled.coherent (hrep.shorter hpackets)

/-! ### Two packets -/

def arpReplyBytes (host : Byte) (senderIp : Ip) : List Byte :=
  ethHdr (Vector.replicate 6 2) (Vector.replicate 6 host) 0x0608 ++
    arpBytes 0x0200 (Vector.replicate 6 host) senderIp (Vector.replicate 6 2) 2

theorem arpReplyBytes_type (host : Byte) (senderIp : Ip) (behind : Mem) :
    swap16 (load16 (onto (arpReplyBytes host senderIp) behind) 12) = 0x0806 := by
  have htype : load16 (onto (arpReplyBytes host senderIp) behind) 12 = 0x0608 := by
    simp [load16, onto, arpReplyBytes, ethHdr, store16]
  rw [htype]
  decide

/-- A reply from a host whose MAC has the same byte six times. -/
def arpReplyFrame (host : Byte) (senderIp : Ip) : ArpFrame where
  mem := onto (arpReplyBytes host senderIp) fun _ => 0
  len := 60
  whole := by decide
  type := arpReplyBytes_type host senderIp _

def quietHost : Net :=
  { lanHost 2 1 with arpCache := fun _ => { ip := 0, mac := Vector.replicate 6 0, valid := false } }

/-- Two hosts answer, and both are found. -/
theorem arp_coherent_two_hosts :
    ∃ net', Executes ArpReceived quietHost [arpReplyFrame 1 1, arpReplyFrame 3 5] net' ∧
      ArpCoherent net' [(1, Vector.replicate 6 1), (5, Vector.replicate 6 3)] ∧
      arpResolve net' 1 = some (Vector.replicate 6 1) ∧
      arpResolve net' 5 = some (Vector.replicate 6 3) := by
  obtain ⟨net', hrun⟩ := arp_run_exists quietHost [arpReplyFrame 1 1, arpReplyFrame 3 5]
  have hsenders : [arpReplyFrame 1 1, arpReplyFrame 3 5].filterMap ArpFrame.sender =
      [(1, Vector.replicate 6 1), (5, Vector.replicate 6 3)] := by decide +kernel
  have hrep : ArpRepeats ([arpReplyFrame 1 1, arpReplyFrame 3 5].filterMap ArpFrame.sender) := by
    rw [hsenders]
    decide
  have hcoherent := (arp_coherent_iff (fun _ => rfl) [arpReplyFrame 1 1, arpReplyFrame 3 5]).mpr
    (.inr ⟨by simp [quietHost, lanHost], hrep⟩) _ net' (List.prefix_refl _) hrun
  rw [hsenders] at hcoherent
  exact ⟨net', hrun, hcoherent, hcoherent.latest 1 _ (by decide), hcoherent.latest 5 _ (by decide)⟩

/-- A host whose MAC has changed is still sent to the old one. -/
theorem arp_keeps_old_mac :
    ∃ net', Executes ArpReceived quietHost [arpReplyFrame 1 1, arpReplyFrame 3 1] net' ∧
      ¬ ArpCoherent net' ([arpReplyFrame 1 1, arpReplyFrame 3 1].filterMap ArpFrame.sender) := by
  obtain ⟨net', hrun⟩ := arp_run_exists quietHost [arpReplyFrame 1 1, arpReplyFrame 3 1]
  have hsenders : [arpReplyFrame 1 1, arpReplyFrame 3 1].filterMap ArpFrame.sender =
      [(1, Vector.replicate 6 1), (1, Vector.replicate 6 3)] := by decide +kernel
  have hboot : Filled quietHost [] := fun i _ => rfl
  have hfilled := arp_run_filled hboot hrun
  rw [arpSenders, if_neg (by simp [quietHost, lanHost]), hsenders] at hfilled
  refine ⟨net', hrun, fun hcoherent => ?_⟩
  rw [hsenders] at hcoherent
  have hsame := hcoherent.unique 0 1 (by decide) (by decide)
    ((hfilled.valid_iff (by decide)).mpr (by decide))
    ((hfilled.valid_iff (by decide)).mpr (by decide))
  have hfirst := hfilled.entry (by decide) ((hfilled.valid_iff (i := 0) (by decide)).mpr (by decide))
  have hsecond := hfilled.entry (by decide) ((hfilled.valid_iff (i := 1) (by decide)).mpr (by decide))
  simp only [List.getElem?_cons_zero, List.getElem?_cons_succ, Option.some.injEq,
    Prod.mk.injEq] at hfirst hsecond
  exact absurd (hsame (hfirst.1.symm.trans hsecond.1)) (by decide)

end BrightS
