/-
Why a checksum verifies.

The sum of the words is taken in 32 bits, and a buffer of less than 64 KiB does not fill them.
Folding it leaves its residue modulo 65535, so the checksum is what is missing to the other form
of zero; stored in a field that was zero it brings the sum there.
-/
import BrightS.Kernel.Checksum
import BrightS.Lib.OnesComplement

namespace BrightS

open Bytes OnesComplement

/-! ### The sum -/

theorem wordSum_le (bytes : List Byte) : wordSum bytes * 2 ≤ bytes.length * 65535 + 65535 := by
  induction bytes using wordSum.induct with
  | case1 lo hi rest ih =>
      have hword := (hi ++ lo).isLt
      rw [wordSum, List.length_cons, List.length_cons]
      omega
  | case2 last =>
      have hlast := last.isLt
      rw [wordSum, List.length_singleton]
      omega
  | case3 => simp [wordSum]

theorem wordSum_lt {bytes : List Byte} (hlen : bytes.length ≤ 65535) :
    wordSum bytes < 2 ^ 32 := by
  have hle := wordSum_le bytes
  omega

/-- The accumulator is the sum as long as that fits. -/
theorem checksumLoop_toNat (bytes : List Byte) (sum : BitVec 32)
    (hfits : sum.toNat + wordSum bytes < 2 ^ 32) :
    (checksumLoop bytes sum).toNat = sum.toNat + wordSum bytes := by
  induction bytes, sum using checksumLoop.induct with
  | case1 lo hi rest sum ih =>
      rw [wordSum] at hfits ⊢
      have hnext : (sum + (hi ++ lo).setWidth 32).toNat = sum.toNat + (hi ++ lo).toNat := by
        have hword := (hi ++ lo).isLt
        rw [BitVec.toNat_add, BitVec.toNat_setWidth]
        omega
      rw [checksumLoop, ih (by omega), hnext]
      omega
  | case2 sum last =>
      have hlast := last.isLt
      rw [wordSum] at hfits ⊢
      rw [checksumLoop, BitVec.toNat_add, BitVec.toNat_setWidth]
      omega
  | case3 sum => simp [checksumLoop, wordSum]

/-- Words in front of others, up to an even place. -/
theorem wordSum_append {front : List Byte} (back : List Byte) (heven : front.length % 2 = 0) :
    wordSum (front ++ back) = wordSum front + wordSum back := by
  induction front using wordSum.induct with
  | case1 lo hi rest ih =>
      rw [List.length_cons, List.length_cons] at heven
      rw [List.cons_append, List.cons_append, wordSum, wordSum, ih (by omega), Nat.add_assoc]
  | case2 last => simp at heven
  | case3 => simp [wordSum]

/-! ### The fold -/

theorem foldCarry_eq (n : Nat) : foldCarry n = fold (2 ^ 16) n := rfl

theorem foldLoop_step (sum : BitVec 32) :
    ((sum &&& 0xFFFF#32) + (sum >>> 16)).toNat = foldCarry sum.toNat := by
  have hlt := sum.isLt
  have hmask : (0xFFFF#32).toNat = 2 ^ 16 - 1 := rfl
  rw [BitVec.toNat_add, BitVec.toNat_and, BitVec.toNat_ushiftRight, hmask,
    Nat.and_two_pow_sub_one_eq_mod, Nat.shiftRight_eq_div_pow]
  unfold foldCarry
  omega

theorem shiftRight_eq_zero_iff (sum : BitVec 32) : sum >>> 16 = 0 ↔ sum.toNat < 2 ^ 16 := by
  have hlt := sum.isLt
  rw [← BitVec.toNat_inj, BitVec.toNat_ushiftRight, Nat.shiftRight_eq_div_pow]
  simp only [BitVec.ofNat_eq_ofNat, BitVec.toNat_ofNat, Nat.zero_mod]
  omega

/-- Two rounds leave nothing above. -/
theorem foldLoop_two (sum : BitVec 32) :
    ∃ r, foldLoop 2 sum = some r ∧ r.toNat = foldCarry (foldCarry sum.toNat) ∧
      r.toNat < 2 ^ 16 := by
  have hlt := sum.isLt
  have hsmall : foldCarry (foldCarry sum.toNat) < 2 ^ 16 := by
    rw [foldCarry_eq, foldCarry_eq]
    exact fold_fold_lt (by decide) (by omega)
  unfold foldLoop
  by_cases hdone : sum >>> 16 = 0
  · rw [if_pos hdone]
    have hsum := (shiftRight_eq_zero_iff sum).mp hdone
    refine ⟨sum, rfl, ?_, hsum⟩
    rw [foldCarry_eq, foldCarry_eq, fold_of_lt hsum, fold_of_lt hsum]
  rw [if_neg hdone]
  have hfirst := foldLoop_step sum
  generalize (sum &&& 0xFFFF#32) + (sum >>> 16) = next at hfirst
  unfold foldLoop
  by_cases hnext : next >>> 16 = 0
  · rw [if_pos hnext]
    have hlow := (shiftRight_eq_zero_iff next).mp hnext
    refine ⟨next, rfl, ?_, hlow⟩
    rw [← hfirst, foldCarry_eq, fold_of_lt hlow]
  rw [if_neg hnext]
  have hsecond := foldLoop_step next
  generalize (next &&& 0xFFFF#32) + (next >>> 16) = last at hsecond
  rw [hfirst] at hsecond
  rw [← hsecond] at hsmall
  unfold foldLoop
  rw [if_pos ((shiftRight_eq_zero_iff last).mpr hsmall)]
  exact ⟨last, rfl, hsecond, hsmall⟩

/-! ### The checksum -/

/-- What the checksum is: the complement of the residue of the sum. -/
theorem ipChecksum_toNat {bytes : List Byte} (hlen : bytes.length ≤ 65535) :
    (ipChecksum bytes).toNat = 65535 - residue 65536 (wordSum bytes) := by
  have hsum := wordSum_lt hlen
  have hfold : foldCarry (foldCarry (wordSum bytes)) < 2 ^ 16 := by
    rw [foldCarry_eq, foldCarry_eq]
    exact fold_fold_lt (by decide) (by omega)
  have hres : foldCarry (foldCarry (wordSum bytes)) = residue 65536 (wordSum bytes) := by
    rw [← residue_of_lt hfold, foldCarry_eq, foldCarry_eq, residue_fold (by decide),
      residue_fold (by decide)]
    rfl
  unfold ipChecksum
  rw [Nat.mod_eq_of_lt hsum, BitVec.toNat_not, BitVec.toNat_ofNat, Nat.mod_eq_of_lt hfold, hres]

theorem length_putField {bytes : List Byte} {o : Nat} (hfield : o + 2 ≤ bytes.length)
    (x : BitVec 16) : (putField bytes o x).length = bytes.length := by
  unfold putField
  rw [List.length_append, List.length_append, List.length_take, List.length_drop,
    length_store16]
  omega

/-- The field is one of the words. -/
theorem wordSum_putField {bytes : List Byte} {o : Nat} (heven : o % 2 = 0)
    (hfield : o + 2 ≤ bytes.length) (x : BitVec 16) :
    wordSum (putField bytes o x) = wordSum (putField bytes o 0) + x.toNat := by
  have hfront : (bytes.take o).length % 2 = 0 := by
    rw [List.length_take, Nat.min_eq_left (by omega)]
    exact heven
  have hword : ∀ y : BitVec 16, wordSum (store16 y ++ bytes.drop (o + 2)) =
      y.toNat + wordSum (bytes.drop (o + 2)) := by
    intro y
    show (y.extractLsb' 8 8 ++ y.extractLsb' 0 8).toNat + wordSum (bytes.drop (o + 2)) = _
    rw [append_extract16]
  unfold putField
  rw [wordSum_append _ hfront, wordSum_append _ hfront, hword, hword]
  simp
  omega

/-- **A checksum in its field verifies.** -/
theorem ipChecksum_putField {bytes : List Byte} (hlen : bytes.length ≤ 65535) {o : Nat}
    (heven : o % 2 = 0) (hfield : o + 2 ≤ bytes.length) :
    ipChecksum (putField bytes o (ipChecksum (putField bytes o 0))) = 0 := by
  have hzeroed : (putField bytes o 0).length ≤ 65535 := by
    rw [length_putField hfield]
    exact hlen
  have hwhole : (putField bytes o (ipChecksum (putField bytes o 0))).length ≤ 65535 := by
    rw [length_putField hfield]
    exact hlen
  apply BitVec.eq_of_toNat_eq
  rw [ipChecksum_toNat hwhole, wordSum_putField heven hfield, ipChecksum_toNat hzeroed]
  have hcomplement : residue 65536 (wordSum (putField bytes o 0) +
      (65535 - residue 65536 (wordSum (putField bytes o 0)))) = 65535 :=
    residue_add_complement (by decide)
  rw [hcomplement]
  rfl

/--
**The checksum of a buffer.**  The accumulator is the exact sum after every round, two rounds of
folding leave a value of sixteen bits, which is what the checksum is the complement of, and
storing the checksum in a field that is aligned makes that of the whole buffer zero.
-/
theorem ip_checksum_verifies {bytes : List Byte} (hlen : bytes.length ≤ 65535) :
    (∀ k, (checksumLoop (bytes.take k) 0).toNat = wordSum (bytes.take k)) ∧
      (∃ r, foldLoop 2 (checksumLoop bytes 0) = some r ∧ r.toNat < 2 ^ 16 ∧
        ipChecksum bytes = ~~~(r.setWidth 16)) ∧
      ∀ o, o % 2 = 0 → o + 2 ≤ bytes.length →
        ipChecksum (putField bytes o (ipChecksum (putField bytes o 0))) = 0 := by
  have hexact : ∀ part : List Byte, part.length ≤ 65535 →
      (checksumLoop part 0).toNat = wordSum part := by
    intro part hpart
    have hsum := wordSum_lt hpart
    rw [checksumLoop_toNat part 0 (by simpa using hsum)]
    simp
  refine ⟨fun k => hexact _ ?_, ?_, fun o heven hfield => ipChecksum_putField hlen heven hfield⟩
  · rw [List.length_take]
    omega
  · obtain ⟨r, hloop, hr, hsmall⟩ := foldLoop_two (checksumLoop bytes 0)
    refine ⟨r, hloop, hsmall, ?_⟩
    rw [hexact bytes hlen] at hr
    unfold ipChecksum
    rw [Nat.mod_eq_of_lt (wordSum_lt hlen), ← hr]
    congr 1

/-- A header of twenty bytes with its checksum at ten. -/
theorem ip_checksum_verifies_header :
    ipChecksum (putField (List.replicate 20 0x45) 10
      (ipChecksum (putField (List.replicate 20 0x45) 10 0))) = 0 :=
  (ip_checksum_verifies (show (List.replicate 20 (0x45 : Byte)).length ≤ 65535 by decide)).2.2 10
    (by decide) (by decide)

/-! ### Packets that are sent -/

theorem IpHdr.bytes_checksum (ip : IpHdr) (x : BitVec 16) :
    ({ ip with checksum := x } : IpHdr).bytes = putField ip.bytes 10 x := by
  simp [IpHdr.bytes, putField, store16, store32]

/-- Every header that `ip_send` builds verifies. -/
theorem ipSendHdr_verifies (srcIp dstIp : Ip) (protocol : Byte) (len : Nat) :
    ipChecksum (ipSendHdr srcIp dstIp protocol len).bytes = 0 := by
  obtain ⟨ip, hip⟩ : ∃ ip : IpHdr, ipSendHdr srcIp dstIp protocol len =
      { ip with checksum := ipChecksum ({ ip with checksum := 0 } : IpHdr).bytes } := ⟨_, rfl⟩
  have hlen : ip.bytes.length = 20 := rfl
  rw [hip, IpHdr.bytes_checksum ip (ipChecksum _), IpHdr.bytes_checksum ip 0]
  exact ipChecksum_putField (by omega) (by decide) (by omega)

/-- So does every echo reply of a size that a packet can have. -/
theorem icmpReply_verifies (code : Byte) {rest : List Byte} (hlen : rest.length ≤ 65531) :
    ipChecksum (icmpReply code rest) = 0 := by
  have hput : ∀ x, [0, code] ++ store16 x ++ rest = putField ([0, code, 0, 0] ++ rest) 2 x := by
    intro x
    simp [putField]
  have hzero : [0, code, 0, 0] ++ rest = putField ([0, code, 0, 0] ++ rest) 2 0 := by
    rw [← hput 0]
    rfl
  have hbytes : ([0, code, 0, 0] ++ rest).length = rest.length + 4 := rfl
  unfold icmpReply
  rw [hput, hzero]
  have hself : putField (putField ([0, code, 0, 0] ++ rest) 2 0) 2
      (ipChecksum (putField ([0, code, 0, 0] ++ rest) 2 0)) =
        putField ([0, code, 0, 0] ++ rest) 2
          (ipChecksum (putField ([0, code, 0, 0] ++ rest) 2 0)) := by
    rw [← hzero]
  rw [hself]
  exact ipChecksum_putField (by omega) (by decide) (by omega)

end BrightS
